import Chaos.MineFlood

/-!
# The order of opening clicks

What a sequence of opening clicks opens is the union of the regions of its points on the board before the first of
them. So neither the order of the clicks nor a click made twice makes a difference, to the board or to the count.
-/
namespace Chaos.MineSweeperMgr

open GuardedRuns Relation

variable {s t u : MineSweeperMgr} {p q : Point} {ps qs : List Point} {c : Click} {clicks clicks' : List Click}

/-- A click that does not flag opens at its point. -/
theorem floods_of_click (hopening : c.nAction ≠ paFlag) (ht : s.click c = some t) : Floods s t [c.point] := by
  obtain ⟨⟨v, r⟩, hv, rfl⟩ := Option.map_eq_some_iff.mp ht
  rw [onClickPoint] at hv
  cases hcell : s.cell c.point with
  | none =>
    rw [hcell] at hv
    cases hv
    exact floods_self (List.forall_mem_singleton.mpr (not_openable_of_none hcell))
  | some info =>
    rw [hcell] at hv
    simp only [if_neg hopening] at hv
    split at hv
    · next hdef =>
      cases hv
      apply floods_self
      rw [List.forall_mem_singleton, openable_iff hcell]
      exact fun h => hdef h.1
    · split at hv
      · next hmine =>
        cases hv
        apply floods_self
        rw [List.forall_mem_singleton, openable_iff hcell]
        exact fun h => h.2 hmine
      · obtain ⟨w, hw, hpair⟩ := Option.map_eq_some_iff.mp hv
        cases hpair
        exact floods_of_openPoint hw

theorem floods_of_clicks (hopening : ∀ c ∈ clicks, c.nAction ≠ paFlag) (ht : exec click s clicks = some t) :
    Floods s t (clicks.map Click.point) := by
  induction clicks generalizing s with
  | nil =>
    obtain rfl := Option.some.inj ht
    exact floods_self nofun
  | cons c clicks ih =>
    obtain ⟨hc, hclicks⟩ := List.forall_mem_cons.mp hopening
    obtain ⟨v, hv, ht⟩ := step_of_exec ht
    exact (floods_of_click hc hv).trans (ih hclicks ht)

/-- What can no longer be opened after openings at several points is what is reached from one of them. -/
theorem Floods.not_openable_iff (h : Floods s t ps) (hq : s.Openable q) :
    ¬ t.Openable q ↔ ∃ p ∈ ps, ReflTransGen s.Pushes p q := by
  constructor
  · intro hnot
    exact h.reached q hq hnot
  · intro hreach
    obtain ⟨p, hp, hpq⟩ := hreach
    clear hq
    induction hpq with
    | refl => exact h.settled p hp
    | tail _ hstep ih => exact h.closed _ _ hstep.1 ih hstep.2

/-- Openings at the same points leave the same cells. -/
theorem Floods.cell_eq (h : Floods s t ps) (h' : Floods s u qs) (hsame : ∀ p, p ∈ ps ↔ p ∈ qs) (q : Point) :
    t.cell q = u.cell q := by
  have hiff (hq : s.Openable q) : ¬ t.Openable q ↔ ¬ u.Openable q := by
    rw [h.not_openable_iff hq, h'.not_openable_iff hq]
    exact exists_congr fun p => and_congr_left fun _ => hsame p
  by_cases hnew : s.Openable q ∧ ¬ t.Openable q
  · obtain ⟨hq, hnot⟩ := hnew
    obtain ⟨info, hinfo, ht⟩ := h.opened.cell_region hq hnot
    obtain ⟨i, hi, hu⟩ := h'.opened.cell_region hq ((hiff hq).mp hnot)
    obtain rfl := Option.some.inj (hinfo.symm.trans hi)
    exact ht.trans hu.symm
  · rw [h.opened.cell_outside hnew, h'.opened.cell_outside]
    intro hboth
    exact hnew ⟨hboth.1, (hiff hboth.1).mpr hboth.2⟩

/-- Openings at the same points leave the same game. -/
theorem Floods.unique (h : Floods s t ps) (h' : Floods s u qs) (hsame : ∀ p, p ∈ ps ↔ p ∈ qs) : t = u := by
  have hmap : t.mineSweeperMap = u.mineSweeperMap := Finmap.ext_lookup (h.cell_eq h' hsame)
  have hshowing : t.showing .mssOpen = u.showing .mssOpen := by
    ext p
    rw [mem_showing, mem_showing, h.cell_eq h' hsame p]
  have hcount : t.mOpenPoint = u.mOpenPoint := by
    have ht := h.opened.count
    have hu := h'.opened.count
    rw [hshowing] at ht
    omega
  have hpoint := h.opened.maxPoint.trans h'.opened.maxPoint.symm
  have hmine := h.opened.maxMine.trans h'.opened.maxMine.symm
  have hpoints := h.opened.minePoints.trans h'.opened.minePoints.symm
  cases t
  cases u
  simp only at hmap hcount hpoint hmine hpoints
  rw [hmap, hcount, hpoint, hmine, hpoints]

/-- Every sequence of clicks comes to its end. -/
theorem exec_click (s : MineSweeperMgr) (clicks : List Click) : ∃ t, exec click s clicks = some t := by
  induction clicks generalizing s with
  | nil => exact ⟨s, rfl⟩
  | cons c clicks ih =>
    obtain ⟨v, r, hv, -⟩ := click_pass s c
    obtain ⟨t, ht⟩ := ih v
    exact ⟨t, exec_of_step (Option.map_eq_some_iff.mpr ⟨(v, r), hv, rfl⟩) ht⟩

/-- The open cells after openings, on a board. -/
theorem Floods.newly_open (hs : ∀ p, p ∈ s.mineSweeperMap.keys ↔ OnBoard s.maxPoint p) (h : Floods s t ps) :
    q ∈ t.showing .mssOpen \ s.showing .mssOpen ↔ ∃ p ∈ ps, Region s p q := by
  have hregion : (∃ p ∈ ps, Region s p q) ↔ s.Openable q ∧ ¬ t.Openable q := by
    simp only [Region, ← pushes_eq hs]
    constructor
    · intro hreach
      obtain ⟨p, hp, hpq, hq⟩ := hreach
      exact ⟨hq, (h.not_openable_iff hq).mpr ⟨p, hp, hpq⟩⟩
    · intro hnew
      obtain ⟨p, hp, hpq⟩ := (h.not_openable_iff hnew.1).mp hnew.2
      exact ⟨p, hp, hpq, hnew.1⟩
  rw [hregion, Finset.mem_sdiff, mem_showing, mem_showing]
  constructor
  · intro hnew
    by_contra hnot
    rw [h.opened.cell_outside hnot] at hnew
    exact hnew.2 hnew.1
  · intro hnew
    obtain ⟨info, hinfo, hopen⟩ := h.opened.cell_region hnew.1 hnew.2
    refine ⟨⟨_, hopen, rfl⟩, ?_⟩
    intro hold
    obtain ⟨i, hi, hstatus⟩ := hold
    cases hstatus.symm.trans ((openable_iff hi).mp hnew.1).1

/-- Two sequences of opening clicks at the same points leave the same game, in whatever order and however often they
click; and on a board they have opened the regions that these points have before the first click. -/
theorem openings_commute (s : MineSweeperMgr) (clicks clicks' : List Click)
    (hopening : ∀ c ∈ clicks, c.nAction ≠ paFlag) (hopening' : ∀ c ∈ clicks', c.nAction ≠ paFlag)
    (hsame : ∀ p, p ∈ clicks.map Click.point ↔ p ∈ clicks'.map Click.point) :
    ∃ t, exec click s clicks = some t ∧ exec click s clicks' = some t ∧
      ((∀ p, p ∈ s.mineSweeperMap.keys ↔ OnBoard s.maxPoint p) →
        ∀ q, q ∈ t.showing .mssOpen \ s.showing .mssOpen ↔ ∃ c ∈ clicks, Region s c.point q) := by
  obtain ⟨t, ht⟩ := exec_click s clicks
  obtain ⟨u, hu⟩ := exec_click s clicks'
  have hfloods := floods_of_clicks hopening ht
  obtain rfl := hfloods.unique (floods_of_clicks hopening' hu) hsame
  refine ⟨t, ht, hu, ?_⟩
  intro hs q
  rw [hfloods.newly_open hs]
  simp only [List.mem_map, exists_exists_and_eq_and]

/-- The flood of the first click opens three cells more than the point itself. -/
theorem openings_commute_cornerBoard :
    ∃ t, exec click cornerBoard [⟨⟨0, 0⟩, 1⟩, ⟨⟨2, 1⟩, 1⟩] = some t ∧
      exec click cornerBoard [⟨⟨2, 1⟩, 1⟩, ⟨⟨0, 0⟩, 1⟩, ⟨⟨2, 1⟩, 0⟩] = some t ∧
      ∀ q, q ∈ t.showing .mssOpen \ cornerBoard.showing .mssOpen ↔
        ∃ c ∈ [(⟨⟨0, 0⟩, 1⟩ : Click), ⟨⟨2, 1⟩, 1⟩], Region cornerBoard c.point q := by
  obtain ⟨t, ht, ht', hregion⟩ := openings_commute cornerBoard [⟨⟨0, 0⟩, 1⟩, ⟨⟨2, 1⟩, 1⟩]
    [⟨⟨2, 1⟩, 1⟩, ⟨⟨0, 0⟩, 1⟩, ⟨⟨2, 1⟩, 0⟩] (by decide) (by decide) (by
      intro p
      simp only [List.map_cons, List.map_nil, List.mem_cons, List.not_mem_nil, or_false]
      tauto)
  exact ⟨t, ht, ht', hregion cells_cornerBoard⟩

end Chaos.MineSweeperMgr
