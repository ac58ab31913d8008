import Chaos.MineClicks
import Chaos.MineNumbers
import Mathlib.Logic.Relation

/-!
# What an opening click opens

`OpenPoint` changes the board that it explores. What it leaves behind is closed: a cell of content 0 that it opened
has no neighbour left that could be opened. So it opens everything that can be reached over such cells, and nothing
else.
-/
namespace Chaos.MineSweeperMgr

open GuardedRuns Relation

/-- Unopened, unflagged and no mine. -/
def Openable (s : MineSweeperMgr) (p : Point) : Prop :=
  ∃ info, s.cell p = some info ∧ info.status = .mssDefault ∧ info.content ≠ landmine

/-- Unopened, unflagged and of content 0. -/
def Blank (s : MineSweeperMgr) (p : Point) : Prop :=
  ∃ info, s.cell p = some info ∧ info.status = .mssDefault ∧ info.content = 0

/-- `OpenPoint` goes on from `p` to `q`. -/
def Pushes (s : MineSweeperMgr) (p q : Point) : Prop := s.Blank p ∧ q ∈ getPointAroundMine s.maxPoint p

/-- `t` is `s` after openings at the points `ps`. -/
structure Floods (s t : MineSweeperMgr) (ps : List Point) : Prop where
  opened : Opened s t
  closed (p q : Point) (hp : s.Blank p) (hnot : ¬ t.Openable p) (hq : q ∈ getPointAroundMine s.maxPoint p) :
    ¬ t.Openable q
  settled (p : Point) (h : p ∈ ps) : ¬ t.Openable p
  reached (q : Point) (hq : s.Openable q) (hnot : ¬ t.Openable q) : ∃ p ∈ ps, ReflTransGen s.Pushes p q

variable {s t u : MineSweeperMgr} {point p q : Point} {ps qs : List Point} {info : PointInfo}

theorem Blank.openable (h : s.Blank p) : s.Openable p := by
  obtain ⟨info, hinfo, hdef, hzero⟩ := h
  exact ⟨info, hinfo, hdef, hzero.trans_ne (by decide)⟩

theorem openable_iff (hcell : s.cell p = some info) :
    s.Openable p ↔ info.status = .mssDefault ∧ info.content ≠ landmine := by
  constructor
  · intro h
    obtain ⟨i, hi, hrest⟩ := h
    exact Option.some.inj (hi.symm.trans hcell) ▸ hrest
  · intro h
    exact ⟨info, hcell, h⟩

theorem not_openable_of_none (hcell : s.cell p = none) : ¬ s.Openable p := by
  intro h
  obtain ⟨info, hinfo, -⟩ := h
  cases hcell.symm.trans hinfo

/-- A cell that can still be opened has not changed. -/
theorem Opened.cell_eq (h : Opened s t) (hp : t.Openable p) : t.cell p = s.cell p := by
  rcases h.cell p with hsame | ⟨info, -, -, -, hopen⟩
  · exact hsame
  · cases ((openable_iff hopen).mp hp).1

theorem Opened.openable (h : Opened s t) (hp : t.Openable p) : s.Openable p := by
  have hcell := h.cell_eq hp
  obtain ⟨info, hinfo, hrest⟩ := hp
  exact ⟨info, hcell ▸ hinfo, hrest⟩

theorem Opened.blank (h : Opened s t) (hp : t.Blank p) : s.Blank p := by
  have hcell := h.cell_eq hp.openable
  obtain ⟨info, hinfo, hrest⟩ := hp
  exact ⟨info, hcell ▸ hinfo, hrest⟩

theorem Opened.pushes (h : Opened s t) (hpq : ReflTransGen t.Pushes p q) : ReflTransGen s.Pushes p q := by
  refine ReflTransGen.mono ?_ _ _ hpq
  intro a b hab
  exact ⟨h.blank hab.1, h.maxPoint ▸ hab.2⟩

/-- A later opening sees what an earlier one has done. -/
theorem Floods.trans (h : Floods s t ps) (h' : Floods t u qs) : Floods s u (ps ++ qs) := by
  constructor
  · exact h.opened.trans h'.opened
  · intro p q hp hnot hq
    by_cases ht : t.Openable p
    · have hcell := h.opened.cell_eq ht
      obtain ⟨info, hinfo, hrest⟩ := hp
      exact h'.closed p q ⟨info, hcell.trans hinfo, hrest⟩ hnot (h.opened.maxPoint ▸ hq)
    · intro hu
      exact h.closed p q hp ht hq (h'.opened.openable hu)
  · intro p hp hu
    rcases List.mem_append.mp hp with hp | hp
    · exact h.settled p hp (h'.opened.openable hu)
    · exact h'.settled p hp hu
  · intro q hq hnot
    by_cases ht : t.Openable q
    · obtain ⟨p, hp, hpq⟩ := h'.reached q ht hnot
      exact ⟨p, List.mem_append_right _ hp, h.opened.pushes hpq⟩
    · obtain ⟨p, hp, hpq⟩ := h.reached q hq ht
      exact ⟨p, List.mem_append_left _ hp, hpq⟩

/-- Nothing is opened where nothing can be. -/
theorem floods_self (hps : ∀ p ∈ ps, ¬ s.Openable p) : Floods s s ps where
  opened := .refl s
  closed _ _ hp hnot _ := absurd hp.openable hnot
  settled := hps
  reached _ hq hnot := absurd hq hnot

/-- Openings one after the other. -/
theorem floods_exec {step : MineSweeperMgr → Point → Option MineSweeperMgr}
    (hstep : ∀ s p t, step s p = some t → Floods s t [p]) (ht : exec step s ps = some t) : Floods s t ps := by
  induction ps generalizing s with
  | nil =>
    obtain rfl := Option.some.inj ht
    exact floods_self nofun
  | cons p ps ih =>
    obtain ⟨v, hv, ht⟩ := exec_cons_eq_some.mp ht
    exact (hstep s p v hv).trans (ih ht)

theorem openable_openCell_self : ¬ (s.openCell p info).Openable p := by
  intro h
  cases ((openable_iff cell_openCell_self).mp h).1

/-- A number is opened alone. -/
theorem floods_number (hcell : s.cell p = some info) (hdef : info.status = .mssDefault)
    (hmine : info.content ≠ landmine) (hnumber : info.content ≠ 0) : Floods s (s.openCell p info) [p] := by
  have hother {q : Point} (hq : q ≠ p) (hopenable : s.Openable q) : (s.openCell p info).Openable q := by
    rwa [Openable, cell_openCell_of_ne hq]
  constructor
  · exact opened_openCell hcell hdef hmine
  · intro q r hq hnot hr
    by_cases hqp : q = p
    · subst hqp
      obtain ⟨i, hi, -, hzero⟩ := hq
      obtain rfl := Option.some.inj (hcell.symm.trans hi)
      exact absurd hzero hnumber
    · exact absurd (hother hqp hq.openable) hnot
  · intro q hq
    obtain rfl := List.mem_singleton.mp hq
    exact openable_openCell_self
  · intro q hq hnot
    by_cases hqp : q = p
    · exact ⟨p, List.mem_singleton_self p, hqp ▸ .refl⟩
    · exact absurd (hother hqp hq) hnot

/-- A blank cell is opened and then the cells around it. -/
theorem floods_blank (hcell : s.cell p = some info) (hdef : info.status = .mssDefault) (hzero : info.content = 0)
    (h : Floods (s.openCell p info) t (getPointAroundMine s.maxPoint p)) : Floods s t [p] := by
  have hblank : s.Blank p := ⟨info, hcell, hdef, hzero⟩
  have hopened : Opened s (s.openCell p info) := opened_openCell hcell hdef (hzero.trans_ne (by decide))
  constructor
  · exact hopened.trans h.opened
  · intro q r hq hnot hr
    by_cases hqp : q = p
    · exact h.settled r (hqp ▸ hr)
    · refine h.closed q r ?_ hnot hr
      rwa [Blank, cell_openCell_of_ne hqp]
  · intro q hq ht
    obtain rfl := List.mem_singleton.mp hq
    exact openable_openCell_self (h.opened.openable ht)
  · intro q hq hnot
    refine ⟨p, List.mem_singleton_self p, ?_⟩
    by_cases hqp : q = p
    · exact hqp ▸ .refl
    · have hopenable : (s.openCell p info).Openable q := by rwa [Openable, cell_openCell_of_ne hqp]
      obtain ⟨r, hr, hrq⟩ := h.reached q hopenable hnot
      exact .head ⟨hblank, hr⟩ (hopened.pushes hrq)

/-- The recursion, at every depth at which it returns. -/
theorem floods_of_openPoint {fuel : ℕ} (ht : openPoint fuel s point = some t) : Floods s t [point] := by
  induction fuel generalizing s t point with
  | zero => cases ht
  | succ fuel ih =>
    simp only [openPoint] at ht
    cases hcell : s.cell point with
    | none =>
      rw [hcell] at ht
      obtain rfl := Option.some.inj ht
      exact floods_self (List.forall_mem_singleton.mpr (not_openable_of_none hcell))
    | some info =>
      rw [hcell] at ht
      simp only at ht
      split at ht
      · next hskip =>
        obtain rfl := Option.some.inj ht
        apply floods_self
        rw [List.forall_mem_singleton, openable_iff hcell]
        intro h
        exact hskip.elim h.2 fun hopen => hopen h.1
      · next hskip =>
        obtain ⟨hmine, hdef⟩ := not_or.mp hskip
        split at ht
        · next hzero => exact floods_blank hcell (not_not.mp hdef) hzero (floods_exec (fun s p t => ih) ht)
        · next hnumber =>
          obtain rfl := Option.some.inj ht
          exact floods_number hcell (not_not.mp hdef) hmine hnumber

/-- A deeper recursion than needed makes no difference. -/
theorem openPoint_succ {fuel : ℕ} (ht : openPoint fuel s point = some t) : openPoint (fuel + 1) s point = some t := by
  induction fuel generalizing s t point with
  | zero => cases ht
  | succ fuel ih =>
    rw [openPoint] at ht ⊢
    cases hcell : s.cell point with
    | none => rwa [hcell] at ht
    | some info =>
      rw [hcell] at ht
      simp only at ht ⊢
      split at ht
      · next hskip => rwa [if_pos hskip]
      · next hskip =>
        rw [if_neg hskip]
        split at ht
        · next hzero =>
          rw [if_pos hzero]
          exact exec_mono (fun s p t => ih) ht
        · next hnumber => rwa [if_neg hnumber]

theorem openPoint_of_le {fuel fuel' : ℕ} (h : fuel ≤ fuel') (ht : openPoint fuel s point = some t) :
    openPoint fuel' s point = some t := by
  induction fuel', h using Nat.le_induction with
  | base => exact ht
  | succ _ _ ih => exact openPoint_succ ih

/-! ## The region -/

/-- A step to a neighbouring cell from one that is blank. -/
def Spread (s : MineSweeperMgr) (p q : Point) : Prop := s.Blank p ∧ Neighbour p q ∧ q ∈ s.mineSweeperMap.keys

/-- The cells that can be opened and are reached from `point` over blank cells. -/
def Region (s : MineSweeperMgr) (point p : Point) : Prop := ReflTransGen s.Spread point p ∧ s.Openable p

theorem pushes_eq (hs : ∀ p, p ∈ s.mineSweeperMap.keys ↔ OnBoard s.maxPoint p) : s.Pushes = s.Spread := by
  funext p q
  refine propext (and_congr_right ?_)
  intro hp
  obtain ⟨info, hinfo, -⟩ := hp
  rw [mem_getPointAroundMine ((hs p).mp (mem_keys.mpr ⟨info, hinfo⟩)), hs q, and_comm]

/-- What can be opened and is reached is what can no longer be opened afterwards. -/
theorem Floods.region_iff (hs : ∀ p, p ∈ s.mineSweeperMap.keys ↔ OnBoard s.maxPoint p) (h : Floods s t [point])
    (p : Point) : Region s point p ↔ s.Openable p ∧ ¬ t.Openable p := by
  rw [Region, ← pushes_eq hs, and_comm]
  refine and_congr_right ?_
  intro hp
  constructor
  · intro hreach
    clear hp
    induction hreach with
    | refl => exact h.settled point (List.mem_singleton_self point)
    | tail _ hstep ih => exact h.closed _ _ hstep.1 ih hstep.2
  · intro hnot
    obtain ⟨q, hq, hreach⟩ := h.reached p hp hnot
    exact List.mem_singleton.mp hq ▸ hreach

theorem Opened.cell_region (h : Opened s t) (hp : s.Openable p) (hnot : ¬ t.Openable p) :
    ∃ info, s.cell p = some info ∧ t.cell p = some { info with status := .mssOpen } := by
  rcases h.cell p with hsame | ⟨info, hinfo, -, -, hopen⟩
  · refine absurd ?_ hnot
    rwa [Openable, hsame]
  · exact ⟨info, hinfo, hopen⟩

theorem Opened.cell_outside (h : Opened s t) (hp : ¬ (s.Openable p ∧ ¬ t.Openable p)) : t.cell p = s.cell p := by
  rcases h.cell p with hsame | ⟨info, hinfo, hdef, hmine, hopen⟩
  · exact hsame
  · refine absurd ⟨⟨info, hinfo, hdef, hmine⟩, ?_⟩ hp
    intro hopenable
    cases ((openable_iff hopen).mp hopenable).1

/-- `t` is `s` with the region of `point` opened and counted, and nothing else changed. -/
structure OpensRegion (s t : MineSweeperMgr) (point : Point) : Prop where
  inside (p : Point) (hp : Region s point p) :
    ∃ info, s.cell p = some info ∧ t.cell p = some { info with status := .mssOpen }
  outside (p : Point) (hp : ¬ Region s point p) : t.cell p = s.cell p
  newlyOpen (p : Point) : p ∈ t.showing .mssOpen \ s.showing .mssOpen ↔ Region s point p
  count : t.mOpenPoint = s.mOpenPoint + (t.showing .mssOpen \ s.showing .mssOpen).card

theorem opensRegion_of_floods (hs : ∀ p, p ∈ s.mineSweeperMap.keys ↔ OnBoard s.maxPoint p)
    (h : Floods s t [point]) : OpensRegion s t point := by
  have hregion := h.region_iff hs
  have hinside (p : Point) (hp : Region s point p) := h.opened.cell_region ((hregion p).mp hp).1 ((hregion p).mp hp).2
  have houtside (p : Point) (hp : ¬ Region s point p) : t.cell p = s.cell p :=
    h.opened.cell_outside fun hboth => hp ((hregion p).mpr hboth)
  refine ⟨hinside, houtside, ?_, ?_⟩
  · intro p
    rw [Finset.mem_sdiff, mem_showing, mem_showing]
    constructor
    · intro hnew
      by_contra hp
      rw [houtside p hp] at hnew
      exact hnew.2 hnew.1
    · intro hp
      obtain ⟨info, hinfo, hopen⟩ := hinside p hp
      refine ⟨⟨_, hopen, rfl⟩, ?_⟩
      intro hold
      obtain ⟨i, hi, hstatus⟩ := hold
      obtain ⟨j, hj, hdef, -⟩ := hp.2
      obtain rfl := Option.some.inj (hi.symm.trans hj)
      cases hstatus.symm.trans hdef
  · have hcount := h.opened.count
    rw [Finset.card_sdiff_of_subset h.opened.open_subset, Nat.cast_sub (Finset.card_le_card h.opened.open_subset)]
    omega

/-- `OpenPoint` returns, and what it has opened is the region. -/
theorem openPoint_opens_region (hs : ∀ p, p ∈ s.mineSweeperMap.keys ↔ OnBoard s.maxPoint p) (point : Point) :
    ∃ t, (∀ fuel, s.mineSweeperMap.keys.card < fuel → openPoint fuel s point = some t) ∧ OpensRegion s t point := by
  have hfuel : (s.showing .mssDefault).card < s.mineSweeperMap.keys.card + 1 :=
    Nat.lt_succ_of_le (Finset.card_filter_le _ _)
  obtain ⟨t, ht, -⟩ := @openPoint_opened s point _ hfuel
  exact ⟨t, fun fuel hle => openPoint_of_le hle ht, opensRegion_of_floods hs (floods_of_openPoint ht)⟩

/-- Three columns of two cells with a mine in the corner, blank in the first column. -/
def cornerBoard : MineSweeperMgr where
  maxPoint := ⟨2, 1⟩
  maxMine := 1
  mineSweeperMap := (((((Finmap.singleton ⟨0, 0⟩ ⟨.mssDefault, 0⟩).insert ⟨0, 1⟩ ⟨.mssDefault, 0⟩).insert
    ⟨1, 0⟩ ⟨.mssDefault, 1⟩).insert ⟨1, 1⟩ ⟨.mssDefault, 1⟩).insert ⟨2, 0⟩ ⟨.mssDefault, landmine⟩).insert
    ⟨2, 1⟩ ⟨.mssDefault, 1⟩
  minePoints := {⟨2, 0⟩}
  mOpenPoint := 0

theorem cells_cornerBoard (p : Point) : p ∈ cornerBoard.mineSweeperMap.keys ↔ OnBoard cornerBoard.maxPoint p := by
  simp only [Finmap.mem_keys, cornerBoard, Finmap.mem_insert, Finmap.mem_singleton, Point.ext_iff, OnBoard]
  omega

/-- The flood from the blank corner opens the two blank cells and the two beside them. -/
theorem openPoint_opens_region_cornerBoard :
    ∃ t, OpensRegion cornerBoard t ⟨0, 0⟩ ∧ t.mOpenPoint = 4 := by
  obtain ⟨t, ht, hregion⟩ := openPoint_opens_region cells_cornerBoard ⟨0, 0⟩
  have hcard : cornerBoard.mineSweeperMap.keys.card < 7 := by decide +kernel
  have hopen : (openPoint 7 cornerBoard ⟨0, 0⟩).map mOpenPoint = some 4 := by decide +kernel
  rw [ht 7 hcard] at hopen
  exact ⟨t, hregion, Option.some.inj hopen⟩

end Chaos.MineSweeperMgr
