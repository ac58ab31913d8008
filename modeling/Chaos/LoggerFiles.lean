import Chaos.Logger

/-!
# The open files

A full file is closed before the next one is opened. Where the day has changed the next one is opened without that,
and the file that was open stays so.
-/
namespace Chaos

open GuardedRuns

def LogEvent.isOpened : LogEvent → Bool
  | .opened _ => true
  | _ => false

def LogEvent.isClosed : LogEvent → Bool
  | .closed => true
  | _ => false

/-- The first `fopen` of the call succeeds. -/
def WriteLog.opensFile (c : WriteLog) : Bool := match c.opens with
  | some _ :: _ => true
  | _ => false

namespace Logger

/-- The files that were opened. -/
def openCount (events : List LogEvent) : ℕ := events.countP LogEvent.isOpened

def closeCount (events : List LogEvent) : ℕ := events.countP LogEvent.isClosed

/-- At every moment at most one of the files that were opened has not been closed. -/
def OneOpen (events : List LogEvent) : Prop := ∀ before, before <+: events → openCount before ≤ closeCount before + 1

/-- The recorded size at each line. -/
def BelowMaxSize (events : List LogEvent) : Prop :=
  ∀ file now size, LogEvent.wrote file now size ∈ events → size < maxSize

variable {offset now len : ℤ} {s t u : Logger} {c : WriteLog} {length : Option ℕ} {opens : List (Option ℕ)}
  {file : LogFile} {events : List LogEvent} {calls : List WriteLog}

/-! ## The counts -/

@[simp] theorem openCount_opened : openCount (events ++ [.opened file]) = openCount events + 1 := by
  simp [openCount, LogEvent.isOpened]

@[simp] theorem openCount_closed : openCount (events ++ [.closed]) = openCount events := by
  simp [openCount, LogEvent.isOpened]

@[simp] theorem openCount_wrote {size : ℤ} : openCount (events ++ [.wrote file now size]) = openCount events := by
  simp [openCount, LogEvent.isOpened]

@[simp] theorem closeCount_opened : closeCount (events ++ [.opened file]) = closeCount events := by
  simp [closeCount, LogEvent.isClosed]

@[simp] theorem closeCount_closed : closeCount (events ++ [.closed]) = closeCount events + 1 := by
  simp [closeCount, LogEvent.isClosed]

@[simp] theorem closeCount_wrote {size : ℤ} : closeCount (events ++ [.wrote file now size]) = closeCount events := by
  simp [closeCount, LogEvent.isClosed]

theorem OneOpen.self (h : OneOpen events) : openCount events ≤ closeCount events + 1 := h events List.prefix_rfl

theorem oneOpen_concat {e : LogEvent} :
    OneOpen (events ++ [e]) ↔ OneOpen events ∧ openCount (events ++ [e]) ≤ closeCount (events ++ [e]) + 1 := by
  simp only [OneOpen, List.prefix_concat_iff, forall_eq_or_imp]
  exact and_comm

theorem oneOpen_opened : OneOpen (events ++ [.opened file]) ↔ OneOpen events ∧ openCount events ≤ closeCount events := by
  simp [oneOpen_concat]

theorem oneOpen_closed : OneOpen (events ++ [.closed]) ↔ OneOpen events := by
  rw [oneOpen_concat]
  apply and_iff_left_of_imp
  intro h
  have := h.self
  simp only [openCount_closed, closeCount_closed]
  omega

theorem oneOpen_wrote {size : ℤ} : OneOpen (events ++ [.wrote file now size]) ↔ OneOpen events := by
  rw [oneOpen_concat]
  apply and_iff_left_of_imp
  intro h
  simpa using h.self

/-- A file is closed before the next one is opened. -/
theorem oneOpen_nextLogFile : OneOpen (s.nextLogFile offset now length).events ↔ OneOpen s.events := by
  cases length with
  | none => exact oneOpen_closed
  | some length =>
    have hopened : OneOpen (s.events ++ [.closed] ++ [.opened ⟨localDate offset now, s.fillFileNum + 1⟩]) ↔
        OneOpen s.events := by
      rw [oneOpen_opened, oneOpen_closed, openCount_closed, closeCount_closed]
      exact and_iff_left_of_imp OneOpen.self
    exact hopened

theorem oneOpen_writeFrom (h : s.writeFrom offset now opens len = some t) (hfp : s.fp ≠ none) :
    OneOpen t.events ↔ OneOpen s.events := by
  apply keeps_of_writeFrom (P := fun u => OneOpen u.events ↔ OneOpen s.events) _ _ h hfp Iff.rfl
  · intro u length _ hu
    exact oneOpen_nextLogFile.trans hu
  · intro u file _ hu
    exact oneOpen_wrote.trans hu

/-- Where a call opens a file all the files before it are closed. -/
def ClosesBefore (s : Logger) (c : WriteLog) : Prop :=
  s.accepts c = true → s.needsFile c.now → c.opensFile = true → openCount s.events ≤ closeCount s.events

theorem oneOpen_writeLog (h : s.writeLog offset c = some t) :
    OneOpen t.events ↔ OneOpen s.events ∧ ClosesBefore s c := by
  cases writePass_of_writeLog h with
  | refused haccepts ht =>
    have hcloses : ClosesBefore s c := fun htrue => by simp [haccepts] at htrue
    rw [ht, and_iff_left hcloses]
  | unopened haccepts hneeds hopens ht =>
    have hcloses : ClosesBefore s c := fun _ _ hopen => by simp [WriteLog.opensFile, hopens] at hopen
    rw [ht, and_iff_left hcloses]
  | @opened length opens haccepts hneeds hopens hfrom =>
    have hopen : c.opensFile = true := by simp [WriteLog.opensFile, hopens]
    have hcloses : ClosesBefore s c ↔ openCount s.events ≤ closeCount s.events :=
      ⟨fun h => h haccepts hneeds hopen, fun h _ _ _ => h⟩
    rw [oneOpen_writeFrom hfrom (Option.some_ne_none _), hcloses]
    exact oneOpen_opened
  | kept haccepts hneeds hfp hfrom =>
    have hcloses : ClosesBefore s c := fun _ hyes => absurd hyes hneeds
    rw [oneOpen_writeFrom hfrom (hfp ▸ Option.some_ne_none _), and_iff_left hcloses]

/-! ## The recorded size -/

theorem belowMaxSize_concat {e : LogEvent} (he : ∀ file now size, e ≠ .wrote file now size) :
    BelowMaxSize (events ++ [e]) ↔ BelowMaxSize events := by
  simp only [BelowMaxSize, List.mem_append, List.mem_singleton]
  exact forall₃_congr fun file now size => by rw [or_iff_left (he file now size).symm]

theorem belowMaxSize_openLogFile : BelowMaxSize (s.openLogFile offset now length).events ↔ BelowMaxSize s.events := by
  cases length with
  | none => rfl
  | some length => exact belowMaxSize_concat nofun

theorem belowMaxSize_writeFrom (h : s.writeFrom offset now opens len = some t) (hfp : s.fp ≠ none)
    (hs : BelowMaxSize s.events) : BelowMaxSize t.events := by
  apply keeps_of_writeFrom (P := fun u => BelowMaxSize u.events) _ _ h hfp hs
  · intro u length _ hu
    exact belowMaxSize_openLogFile.mpr ((belowMaxSize_concat (e := .closed) nofun).mpr hu)
  · intro u file hsize hu file' now' size' hmem
    cases List.mem_append.mp hmem with
    | inl hold => exact hu file' now' size' hold
    | inr hnew =>
      obtain ⟨rfl, rfl, rfl⟩ := LogEvent.wrote.inj (List.mem_singleton.mp hnew)
      exact hsize

theorem belowMaxSize_writeLog (hs : BelowMaxSize s.events) (h : s.writeLog offset c = some t) :
    BelowMaxSize t.events := by
  cases writePass_of_writeLog h with
  | refused haccepts ht => exact ht ▸ hs
  | unopened haccepts hneeds hopens ht => exact ht ▸ hs
  | opened haccepts hneeds hopens hfrom =>
    exact belowMaxSize_writeFrom hfrom (Option.some_ne_none _) (belowMaxSize_openLogFile.mpr hs)
  | kept haccepts hneeds hfp hfrom => exact belowMaxSize_writeFrom hfrom (hfp ▸ Option.some_ne_none _) hs

/-! ## Where a file is lost -/

/-- The files that are not closed: the open one. -/
def Counted (s : Logger) : Prop := openCount s.events = closeCount s.events + if s.fp = none then 0 else 1

theorem counted_nextLogFile (hfp : s.fp ≠ none) (hs : Counted s) : Counted (s.nextLogFile offset now length) := by
  rw [Counted, if_neg hfp] at hs
  cases length with
  | none => simpa [Counted, nextLogFile, openLogFile, closeLogFile] using hs
  | some length =>
    have hopen : (s.nextLogFile offset now (some length)).fp ≠ none := Option.some_ne_none _
    have hevents : (s.nextLogFile offset now (some length)).events =
        s.events ++ [.closed] ++ [.opened ⟨localDate offset now, s.fillFileNum + 1⟩] := rfl
    rw [Counted, if_neg hopen, hevents, openCount_opened, openCount_closed, closeCount_opened, closeCount_closed, hs]

theorem counted_writeFrom (h : s.writeFrom offset now opens len = some t) (hfp : s.fp ≠ none) (hs : Counted s) :
    Counted t := by
  apply keeps_of_writeFrom _ _ h hfp hs
  · intro u length hopen hu
    exact counted_nextLogFile hopen hu
  · intro u file _ hu
    simpa [Counted] using hu

/-- A file is open and the day by UTC is another one than that of the last line. -/
def DayChanges (s : Logger) (now : ℤ) : Prop := s.fp ≠ none ∧ now.tdiv day2Sec ≠ s.lastSecond.tdiv day2Sec

instance (s : Logger) (now : ℤ) : Decidable (s.DayChanges now) := inferInstanceAs (Decidable (_ ∧ _))

/-- A call without a change of day closes what it leaves behind. -/
theorem counted_writeLog (hday : s.accepts c = true → ¬ s.DayChanges c.now) (hs : Counted s)
    (h : s.writeLog offset c = some t) : Counted t := by
  cases writePass_of_writeLog h with
  | refused haccepts ht => exact ht ▸ hs
  | unopened haccepts hneeds hopens ht =>
    have hnone : s.fp = none := by
      by_contra hfp
      exact hday haccepts ⟨hfp, hneeds.resolve_left hfp⟩
    rw [ht, ← hnone]
    exact hs
  | opened haccepts hneeds hopens hfrom =>
    have hnone : s.fp = none := by
      by_contra hfp
      exact hday haccepts ⟨hfp, hneeds.resolve_left hfp⟩
    apply counted_writeFrom hfrom (Option.some_ne_none _)
    rw [Counted, if_pos hnone] at hs
    simpa [Counted, openLogFile] using hs
  | kept haccepts hneeds hfp hfrom => exact counted_writeFrom hfrom (hfp ▸ Option.some_ne_none _) hs

theorem closesBefore_iff (hneeds : s.needsFile c.now) (hlost : openCount s.events = closeCount s.events + 1) :
    ClosesBefore s c ↔ (s.accepts c = true → c.opensFile = false) := by
  constructor
  · intro hbefore haccepts
    by_contra hopen
    have := hbefore haccepts hneeds (Bool.eq_true_of_not_eq_false hopen)
    omega
  · intro hnone haccepts _ hopen
    rw [hnone haccepts] at hopen
    cases hopen

/-- Where no file is opened only the pointer changes. -/
theorem eq_of_not_opensFile (hneeds : s.needsFile c.now) (haccepts : s.accepts c = true) (hnone : c.opensFile = false)
    (h : s.writeLog offset c = some t) : t = { s with fp := none } := by
  cases writePass_of_writeLog h with
  | refused hrefused ht =>
    rw [haccepts] at hrefused
    cases hrefused
  | unopened haccepts hneeds hopens ht => exact ht
  | opened haccepts hneeds hopens hfrom =>
    rw [WriteLog.opensFile, hopens] at hnone
    cases hnone
  | kept haccepts hno hfp hfrom => exact absurd hneeds hno

/-- Where a file is lost and none is open no call may open one. -/
theorem guarded_of_lost (hfp : s.fp = none) (hlost : openCount s.events = closeCount s.events + 1)
    (h : exec (writeLog offset) s calls = some u) :
    Guarded (writeLog offset) ClosesBefore s calls ↔ ∀ c ∈ calls, s.accepts c = true → c.opensFile = false := by
  induction calls generalizing s with
  | nil => exact iff_of_true trivial nofun
  | cons c calls ih =>
    obtain ⟨t, ht, hu⟩ := exec_cons_eq_some.mp h
    have hneeds : s.needsFile c.now := .inl hfp
    rw [Guarded, ht, List.forall_mem_cons, closesBefore_iff hneeds hlost]
    refine and_congr_right fun hnone => ?_
    have hsame : t = s := by
      cases haccepts : s.accepts c with
      | false =>
        rw [writeLog, haccepts] at ht
        exact (Option.some.inj ht).symm
      | true => rw [eq_of_not_opensFile hneeds haccepts (hnone haccepts) ht, ← hfp]
    subst hsame
    exact ih hfp hlost hu

/-- From the first call on that finds the day changed while a file is open no file is opened. -/
def StopsOpening (offset : ℤ) : Logger → List WriteLog → Prop
  | _, [] => True
  | s, c :: calls =>
    if s.accepts c = true ∧ s.DayChanges c.now then ∀ d ∈ c :: calls, s.accepts d = true → d.opensFile = false
    else match s.writeLog offset c with
      | none => True
      | some t => StopsOpening offset t calls

theorem guarded_iff_stopsOpening (hs : Counted s) (h : exec (writeLog offset) s calls = some u) :
    Guarded (writeLog offset) ClosesBefore s calls ↔ StopsOpening offset s calls := by
  induction calls generalizing s with
  | nil => rfl
  | cons c calls ih =>
    obtain ⟨t, ht, hu⟩ := exec_cons_eq_some.mp h
    by_cases hday : s.accepts c = true ∧ s.DayChanges c.now
    · obtain ⟨haccepts, hfp, hchanged⟩ := id hday
      have hlost : openCount s.events = closeCount s.events + 1 := by rwa [Counted, if_neg hfp] at hs
      rw [StopsOpening, if_pos hday, Guarded, ht, List.forall_mem_cons, closesBefore_iff (.inr hchanged) hlost]
      refine and_congr_right fun hnone => ?_
      obtain rfl := eq_of_not_opensFile (.inr hchanged) haccepts (hnone haccepts) ht
      exact guarded_of_lost rfl hlost hu
    · have hcloses : ClosesBefore s c := by
        intro haccepts hneeds _
        have hnone : s.fp = none := by
          by_contra hfp
          exact hday ⟨haccepts, hfp, hneeds.resolve_left hfp⟩
        rw [Counted, if_pos hnone] at hs
        exact hs.le
      rw [StopsOpening, if_neg hday, Guarded, ht, and_iff_right hcloses]
      exact ih (counted_writeLog (fun haccepts hchanged => hday ⟨haccepts, hchanged⟩) hs ht) hu

/-- In a run at most one file is open at any time and no line goes to a full one, exactly where no file is opened once
the day has changed under an open file. -/
theorem log_files_balance_iff (h : exec (writeLog offset) new calls = some s) :
    OneOpen s.events ∧ BelowMaxSize s.events ↔ StopsOpening offset new calls := by
  have hnone : BelowMaxSize new.events := nofun
  have hsize : BelowMaxSize s.events := invariant_of_exec (fun _ _ _ => belowMaxSize_writeLog) hnone h
  have hnew : OneOpen new.events := by
    intro before hbefore
    rw [List.prefix_nil.mp hbefore]
    decide
  have hrun := @good_iff_guarded _ _ (writeLog offset) ClosesBefore (fun _ => True) (fun s => OneOpen s.events)
    (fun _ _ _ _ hstep => ⟨trivial, oneOpen_writeLog hstep⟩) new s calls trivial h
  rw [and_iff_left hsize, hrun, and_iff_right hnew]
  exact guarded_iff_stopsOpening rfl h

/-- A line on each of two days. -/
def twoDays : List WriteLog := [⟨86399, 0, true, [some 0], 10⟩, ⟨86400, 0, true, [some 0], 10⟩]

/-- The state in which they leave the logger. -/
def twoDaysLogger : Logger :=
  let first : LogFile := ⟨⟨1970, 1, 1⟩, 0⟩
  let second : LogFile := ⟨⟨1970, 1, 2⟩, 0⟩
  { new with
    fp := some second, curSize := 10, lastSecond := 86400
    events := [.opened first, .wrote first 86399 0, .opened second, .wrote second 86400 0] }

theorem log_files_balance_iff_twoDays :
    OneOpen twoDaysLogger.events ∧ BelowMaxSize twoDaysLogger.events ↔ StopsOpening 0 new twoDays :=
  log_files_balance_iff (by decide +kernel)

/-- The file of the first day is never closed. -/
theorem two_files_open : ¬ ∀ (offset : ℤ) (calls : List WriteLog) (s : Logger),
    (calls.map WriteLog.now).Pairwise (· ≤ ·) → exec (writeLog offset) new calls = some s →
    OneOpen s.events ∧ BelowMaxSize s.events := by
  intro h
  have hopen := (h 0 twoDays twoDaysLogger (by decide) (by decide +kernel)).1.self
  exact absurd hopen (by decide)

end Logger

end Chaos
