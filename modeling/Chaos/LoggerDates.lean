import Chaos.Logger

/-!
# The days of the lines

A file is named after the local date on which it is opened, and it is changed when the day by UTC is another one than
that of the last line. Where local time is not whole days away from UTC the two days begin at different times.
-/
namespace Chaos

open GuardedRuns

namespace Logger

variable {offset now len : ℤ} {s t u : Logger} {c : WriteLog} {length : Option ℕ} {opens : List (Option ℕ)}
  {file : LogFile}

/-- Every line is in a file of its own local date. -/
def Dated (offset : ℤ) (s : Logger) : Prop :=
  ∀ file now size, LogEvent.wrote file now size ∈ s.events → file.date = localDate offset now

/-- The open file has the local date of the last line. -/
def Current (offset : ℤ) (s : Logger) : Prop := ∀ file, s.fp = some file → file.date = localDate offset s.lastSecond

/-- A line for which no file is opened is of the same local day as the line before it. -/
def KeepsDay (offset : ℤ) (s : Logger) (c : WriteLog) : Prop :=
  s.accepts c = true → ¬ s.needsFile c.now → s.curSize < maxSize →
    (c.now + offset) / day2Sec = (s.lastSecond + offset) / day2Sec

instance (offset : ℤ) (s : Logger) (c : WriteLog) : Decidable (KeepsDay offset s c) :=
  inferInstanceAs (Decidable (_ → _ → _ → _))

theorem localDate_inj {a b : ℤ} :
    localDate offset a = localDate offset b ↔ (a + offset) / day2Sec = (b + offset) / day2Sec :=
  CivilDates.ofDay_inj

/-! ## Opening a file -/

theorem dated_openLogFile : Dated offset (s.openLogFile offset now length) ↔ Dated offset s := by
  cases length with
  | none => rfl
  | some length => simp [Dated, openLogFile]

theorem dated_nextLogFile : Dated offset (s.nextLogFile offset now length) ↔ Dated offset s := by
  rw [nextLogFile, dated_openLogFile]
  simp [Dated, closeLogFile]

theorem date_openLogFile (hfp : (s.openLogFile offset now length).fp = some file) :
    file.date = localDate offset now := by
  cases length with
  | none => cases hfp
  | some length =>
    obtain rfl := Option.some.inj hfp
    rfl

theorem dated_fillLoop (h : fillLoop offset now opens s = some t) (hfp : s.fp ≠ none) :
    Dated offset t ↔ Dated offset s := by
  apply keeps_of_fillLoop (P := fun u => Dated offset u ↔ Dated offset s) _ h hfp Iff.rfl
  intro u length _ hu
  exact dated_nextLogFile.trans hu

/-- A full file makes way for one of today. -/
theorem date_of_fillLoop (h : fillLoop offset now opens s = some t) (hopen : s.fp ≠ none)
    (hsize : maxSize ≤ s.curSize) (hfp : t.fp = some file) : file.date = localDate offset now := by
  have hround : t = s ∨ ∀ file, t.fp = some file → file.date = localDate offset now := by
    apply keeps_of_fillLoop (P := fun u => u = s ∨ ∀ file, u.fp = some file → _) _ h hopen (.inl rfl)
    intro u length _ _
    exact .inr fun _ => date_openLogFile
  cases hround with
  | inl hsame =>
    have hlt := curSize_lt_of_fillLoop h (hfp ▸ Option.some_ne_none file)
    exact absurd (hsame ▸ hsize) (not_le.mpr hlt)
  | inr hdate => exact hdate file hfp

/-! ## Writing a line -/

theorem dated_writeLine (hfp : s.fp = some file) (hlen : 0 < len) (h : s.writeLine now len = some t) :
    (Dated offset t → Current offset t) ∧ (Dated offset t ↔ Dated offset s ∧ file.date = localDate offset now) := by
  obtain ⟨hzero, -⟩ | ⟨-, rfl⟩ := writeLine_eq_some hfp h
  · exact absurd hlen (not_lt.mpr hzero)
  · constructor
    · intro hdated line hline
      obtain rfl := Option.some.inj (hfp.symm.trans hline)
      exact hdated file now s.curSize (List.mem_append_right _ (List.mem_singleton_self _))
    · simp only [Dated, List.mem_append, List.mem_singleton, LogEvent.wrote.injEq]
      constructor
      · intro hdated
        exact ⟨fun file' now' size' hmem => hdated file' now' size' (.inl hmem), hdated file now _ (.inr ⟨rfl, rfl, rfl⟩)⟩
      · rintro ⟨hdated, hline⟩ file' now' size' (hmem | ⟨rfl, rfl, -⟩)
        · exact hdated file' now' size' hmem
        · exact hline

theorem dated_writeFrom (hfp : s.fp = some file) (hlen : 0 < len) (h : s.writeFrom offset now opens len = some t) :
    (Dated offset t → Current offset t) ∧
      (Dated offset t ↔ Dated offset s ∧ (s.curSize < maxSize → file.date = localDate offset now)) := by
  obtain ⟨u, hu, hend⟩ := writeFrom_eq_some h
  have hopen : s.fp ≠ none := hfp ▸ Option.some_ne_none file
  by_cases hsize : s.curSize < maxSize
  · rw [fillLoop_of_lt hsize] at hu
    obtain rfl := Option.some.inj hu
    obtain ⟨hnone, -⟩ | ⟨_, -, hline⟩ := hend
    · exact absurd hnone hopen
    · obtain ⟨hcurrent, hdated⟩ := @dated_writeLine offset _ _ _ _ _ hfp hlen hline
      exact ⟨hcurrent, hdated.trans (and_congr_right' (imp_iff_right hsize).symm)⟩
  · have hsame : Dated offset s ∧ (s.curSize < maxSize → file.date = localDate offset now) ↔ Dated offset u :=
      (and_iff_left fun hlt => absurd hlt hsize).trans (dated_fillLoop hu hopen).symm
    rw [hsame]
    obtain ⟨hnone, rfl⟩ | ⟨line, hline, hwrite⟩ := hend
    · exact ⟨fun _ line hline => absurd hline (hnone ▸ nofun), Iff.rfl⟩
    · obtain ⟨hcurrent, hdated⟩ := @dated_writeLine offset _ _ _ _ _ hline hlen hwrite
      have htoday := date_of_fillLoop hu hopen (not_lt.mp hsize) hline
      exact ⟨hcurrent, hdated.trans (and_iff_left htoday)⟩

/-- One call. A file is opened on the day of the line, the file that stays open is of the day of the last line. -/
theorem dated_writeLog (hlen : 0 < c.len) (hcurrent : Dated offset s → Current offset s)
    (h : s.writeLog offset c = some t) :
    (Dated offset t → Current offset t) ∧ (Dated offset t ↔ Dated offset s ∧ KeepsDay offset s c) := by
  cases writePass_of_writeLog h with
  | refused haccepts ht =>
    have hkeeps : KeepsDay offset s c := fun htrue => by simp [haccepts] at htrue
    rw [ht]
    exact ⟨hcurrent, (and_iff_left hkeeps).symm⟩
  | unopened haccepts hneeds hopens ht =>
    have hkeeps : KeepsDay offset s c := fun _ hno => absurd hneeds hno
    rw [ht]
    exact ⟨fun _ => nofun, (and_iff_left hkeeps).symm⟩
  | opened haccepts hneeds hopens hfrom =>
    have hkeeps : KeepsDay offset s c := fun _ hno => absurd hneeds hno
    obtain ⟨hdate, hdated⟩ := dated_writeFrom rfl hlen hfrom
    rw [and_iff_left fun _ => rfl, dated_openLogFile] at hdated
    exact ⟨hdate, hdated.trans (and_iff_left hkeeps).symm⟩
  | @kept file haccepts hneeds hfp hfrom =>
    obtain ⟨hdate, hdated⟩ := dated_writeFrom hfp hlen hfrom
    refine ⟨hdate, hdated.trans (and_congr_right fun hs => ?_)⟩
    rw [hcurrent hs file hfp, eq_comm, localDate_inj]
    exact ⟨fun hday _ _ => hday, fun hday => hday haccepts hneeds⟩

/-- The lines of a run whose writes succeed are in files of their own days exactly where each call that opens no file
is on the local day of the line before it. -/
theorem lines_in_own_day_iff {calls : List WriteLog} (hlen : ∀ c ∈ calls, 0 < c.len)
    (h : exec (writeLog offset) new calls = some s) :
    Dated offset s ↔ Guarded (writeLog offset) (KeepsDay offset) new calls := by
  have hnew : Dated offset new := nofun
  have hcurrent : Dated offset new → Current offset new := fun _ => nofun
  have hrun := @good_iff_guarded_of_labels _ _ (writeLog offset) (KeepsDay offset) (fun c => 0 < c.len)
    (fun s => Dated offset s → Current offset s) (Dated offset) (fun _ _ _ => dated_writeLog) new s calls hlen hcurrent h
  exact hrun.trans (and_iff_right hnew)

/-- Eight hours ahead of UTC, a second before midnight and at midnight, in one day by UTC. -/
def aroundMidnight : List WriteLog :=
  [⟨1699977599, 0, true, [some 0], 10⟩, ⟨1699977600, 0, true, [], 10⟩]

/-- The state in which they leave the logger. -/
def aroundMidnightLogger : Logger :=
  let file : LogFile := ⟨⟨2023, 11, 14⟩, 0⟩
  { new with
    fp := some file, curSize := 20, lastSecond := 1699977600
    events := [.opened file, .wrote file 1699977599 0, .wrote file 1699977600 10] }

theorem lines_in_own_day_iff_aroundMidnight :
    Dated 28800 aroundMidnightLogger ↔ Guarded (writeLog 28800) (KeepsDay 28800) new aroundMidnight :=
  lines_in_own_day_iff (by decide) (by decide +kernel)

/-- The second line is of the fifteenth. -/
theorem line_in_yesterdays_file : ¬ ∀ (offset : ℤ) (calls : List WriteLog) (s : Logger),
    (calls.map WriteLog.now).Pairwise (· ≤ ·) → (∀ c ∈ calls, 0 < c.len) →
    exec (writeLog offset) new calls = some s → Dated offset s := by
  intro h
  have hdated := h 28800 aroundMidnight aroundMidnightLogger (by decide) (by decide) (by decide +kernel)
  have hdate := hdated ⟨⟨2023, 11, 14⟩, 0⟩ 1699977600 10 (by decide)
  exact absurd hdate (by decide +kernel)

/-! ## Whole days from UTC -/

/-- Where local time is whole days ahead of UTC a day by UTC is a local day. -/
theorem keepsDay_of_whole_days (hoffset : day2Sec ∣ offset) (hnow : 0 ≤ c.now) (hlast : 0 ≤ s.lastSecond) :
    KeepsDay offset s c := by
  intro _ hneeds _
  have hday : c.now.tdiv day2Sec = s.lastSecond.tdiv day2Sec := not_not.mp (not_or.mp hneeds).2
  rw [Int.tdiv_eq_ediv_of_nonneg hnow, Int.tdiv_eq_ediv_of_nonneg hlast] at hday
  rw [Int.add_ediv_of_dvd_right hoffset, Int.add_ediv_of_dvd_right hoffset, hday]

theorem lastSecond_nonneg (hnow : 0 ≤ c.now) (hlast : 0 ≤ s.lastSecond) (h : s.writeLog offset c = some t) :
    0 ≤ t.lastSecond := by
  have hkeeps {s : Logger} {opens : List (Option ℕ)} (hfrom : s.writeFrom offset c.now opens c.len = some t)
      (hfp : s.fp ≠ none) (hs : 0 ≤ s.lastSecond) : 0 ≤ t.lastSecond := by
    apply keeps_of_writeFrom (P := fun s => 0 ≤ s.lastSecond) _ _ hfrom hfp hs
    · intro u length _ hu
      cases length <;> exact hu
    · intro _ _ _ _
      exact hnow
  cases writePass_of_writeLog h with
  | refused haccepts ht => exact ht ▸ hlast
  | unopened haccepts hneeds hopens ht => exact ht ▸ hlast
  | opened haccepts hneeds hopens hfrom => exact hkeeps hfrom (Option.some_ne_none _) hlast
  | kept haccepts hneeds hfp hfrom => exact hkeeps hfrom (hfp ▸ Option.some_ne_none _) hlast

/-- There every line goes to the file of its own day. -/
theorem dated_of_whole_days {calls : List WriteLog} (hoffset : day2Sec ∣ offset)
    (hcalls : ∀ c ∈ calls, 0 < c.len ∧ 0 ≤ c.now) (h : exec (writeLog offset) new calls = some s) : Dated offset s := by
  have hguarded := guarded_and hcalls (@guarded_of_forall _ _ (writeLog offset) (fun _ _ => True)
    (fun _ _ => trivial) new calls)
  have hnew : Dated offset new ∧ Current offset new ∧ 0 ≤ new.lastSecond := ⟨nofun, nofun, le_rfl⟩
  refine (@invariant_of_guarded _ _ (writeLog offset) (fun _ c => (0 < c.len ∧ 0 ≤ c.now) ∧ True)
    (fun s => Dated offset s ∧ Current offset s ∧ 0 ≤ s.lastSecond) ?_ new s calls hnew hguarded h).1
  intro s c t hs hc ht
  obtain ⟨hdated, hcurrent, hlast⟩ := hs
  obtain ⟨⟨hlen, hnow⟩, -⟩ := hc
  obtain ⟨hnext, hiff⟩ := dated_writeLog hlen (fun _ => hcurrent) ht
  have ht' := hiff.mpr ⟨hdated, keepsDay_of_whole_days hoffset hnow hlast⟩
  exact ⟨ht', hnext ht', lastSecond_nonneg hnow hlast ht⟩

end Logger

end Chaos
