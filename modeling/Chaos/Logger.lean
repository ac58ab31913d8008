import Chaos.CivilDates
import Chaos.GuardedRuns
import Chaos.Word32

/-!
# The logger

`Logger::WriteLog` of `log/Logger.cpp` after a successful `Init`. A call comes with what it finds: the time, the
outcome of each `fopen` and of the `vfprintf`; local time is a fixed number of seconds ahead of UTC. What was opened,
closed and written is noted in the order in which it happened.
-/
namespace Chaos

/-- The part of a file's name that `OpenLogFile` makes, its date and number. -/
structure LogFile where
  date : CivilDates.Date
  fillFileNum : ℕ
  deriving DecidableEq, Repr

/-- `size` is what `m_curSize` says of the file when the line of the time `now` is written. -/
inductive LogEvent where
  | opened (file : LogFile)
  | closed
  | wrote (file : LogFile) (now size : ℤ)
  deriving DecidableEq, Repr

/-- `events` is only noted. -/
structure Logger where
  fp : Option LogFile
  curSize : ℤ
  fillFileNum : ℕ
  lastSecond : ℤ
  isInit : Bool
  events : List LogEvent
  deriving DecidableEq, Repr

/-- A call of `WriteLog` at `now`. `opens` says what each `fopen` finds, the length of the file or a failure, and
`len` what `vfprintf` returns. -/
structure WriteLog where
  now : ℤ
  logLev : ℤ
  fmt : Bool
  opens : List (Option ℕ)
  len : ℤ
  deriving DecidableEq, Repr

namespace Logger

def maxSize : ℤ := 1024 * 1024 * 500

def day2Sec : ℤ := 24 * 3600

/-- After the constructor and `Init`. -/
def new : Logger := ⟨none, 0, 0, 0, true, []⟩

/-- The date that `localtime` gives where local time is `offset` seconds ahead. -/
def localDate (offset t : ℤ) : CivilDates.Date := CivilDates.ofDay ((t + offset) / day2Sec)

variable (offset now : ℤ) (s : Logger)

/-- `OpenLogFile`. The length is read as an `int`. -/
def openLogFile : Option ℕ → Logger
  | none => { s with fp := none }
  | some length =>
    let file : LogFile := ⟨localDate offset now, s.fillFileNum⟩
    { s with fp := some file, curSize := Word32.int32 length, events := s.events ++ [.opened file] }

def closeLogFile : Logger := { s with fp := none, events := s.events ++ [.closed] }

/-- The body of the loop over the full files. -/
def nextLogFile (length : Option ℕ) : Logger :=
  ({ s with fillFileNum := s.fillFileNum + 1 }.closeLogFile).openLogFile offset now length

/-- The loop, up to its end or to the return where a file does not open. It goes on for as long as it finds full
files, `none` is where the outcomes do not say what it finds next. -/
def fillLoop : List (Option ℕ) → Logger → Option Logger
  | [], s => if maxSize ≤ s.curSize then none else some s
  | length :: opens, s =>
    if maxSize ≤ s.curSize then
      let t := s.nextLogFile offset now length
      if t.fp = none then some t else fillLoop opens t
    else some s

/-- The line. A sum that is no `int` has no behaviour. -/
def writeLine (len : ℤ) : Option Logger := match s.fp with
  | none => none
  | some file =>
    if len ≤ 0 then some s
    else if 2147483647 < s.curSize + len then none
    else some { s with
      lastSecond := now, curSize := s.curSize + len, events := s.events ++ [.wrote file now s.curSize] }

/-- From the loop on. -/
def writeFrom (opens : List (Option ℕ)) (len : ℤ) : Option Logger :=
  (fillLoop offset now opens s).bind fun t => if t.fp = none then some t else t.writeLine now len

/-- The checks at the head of `WriteLog`, of `m_isInit` and of the arguments. -/
def accepts (c : WriteLog) : Bool := s.isInit && c.fmt && decide (0 ≤ c.logLev ∧ c.logLev < 6)

/-- The first file is opened, or one for another day, by UTC. -/
def needsFile : Prop := s.fp = none ∨ now.tdiv day2Sec ≠ s.lastSecond.tdiv day2Sec

instance : Decidable (s.needsFile now) := inferInstanceAs (Decidable (_ ∨ _))

def writeLog (c : WriteLog) : Option Logger :=
  if !s.accepts c then some s
  else if s.needsFile c.now then match c.opens with
    | [] => none
    | length :: opens =>
      let t := s.openLogFile offset c.now length
      if t.fp = none then some t else t.writeFrom offset c.now opens c.len
  else s.writeFrom offset c.now c.opens c.len

/-! ## The loop -/

variable {offset now : ℤ} {s t : Logger} {opens : List (Option ℕ)} {len : ℤ}

theorem fillLoop_of_lt (h : s.curSize < maxSize) : fillLoop offset now opens s = some s := by
  cases opens <;> exact if_neg (not_le.mpr h)

theorem fillLoop_cons {length : Option ℕ} (h : maxSize ≤ s.curSize) :
    fillLoop offset now (length :: opens) s =
      if (s.nextLogFile offset now length).fp = none then some (s.nextLogFile offset now length)
      else fillLoop offset now opens (s.nextLogFile offset now length) :=
  if_pos h

/-- What a round keeps the loop keeps; a round begins with an open file. -/
theorem keeps_of_fillLoop {P : Logger → Prop}
    (hnext : ∀ s length, s.fp ≠ none → P s → P (s.nextLogFile offset now length))
    (h : fillLoop offset now opens s = some t) (hfp : s.fp ≠ none) (hs : P s) : P t := by
  induction opens generalizing s with
  | nil =>
    obtain ⟨-, h⟩ := Option.ite_none_left_eq_some.mp h
    exact Option.some.inj h ▸ hs
  | cons length opens ih =>
    by_cases hfull : maxSize ≤ s.curSize
    · rw [fillLoop_cons hfull] at h
      split at h
      · exact Option.some.inj h ▸ hnext s length hfp hs
      · next hopen => exact ih h hopen (hnext s length hfp hs)
    · rw [fillLoop_of_lt (not_le.mp hfull)] at h
      exact Option.some.inj h ▸ hs

/-- The loop ends without a file or with one that is not full. -/
theorem curSize_lt_of_fillLoop (h : fillLoop offset now opens s = some t) (hfp : t.fp ≠ none) : t.curSize < maxSize := by
  induction opens generalizing s with
  | nil =>
    obtain ⟨hsize, h⟩ := Option.ite_none_left_eq_some.mp h
    exact Option.some.inj h ▸ not_le.mp hsize
  | cons length opens ih =>
    by_cases hfull : maxSize ≤ s.curSize
    · rw [fillLoop_cons hfull] at h
      split at h
      · next hnone => exact absurd (Option.some.inj h ▸ hnone) hfp
      · exact ih h
    · rw [fillLoop_of_lt (not_le.mp hfull)] at h
      exact Option.some.inj h ▸ not_le.mp hfull

/-- A line is written where the loop leaves a file open. -/
theorem writeFrom_eq_some (h : s.writeFrom offset now opens len = some t) :
    ∃ u, fillLoop offset now opens s = some u ∧
      ((u.fp = none ∧ t = u) ∨ ∃ file, u.fp = some file ∧ u.writeLine now len = some t) := by
  obtain ⟨u, hu, h⟩ := Option.bind_eq_some_iff.mp h
  refine ⟨u, hu, ?_⟩
  cases hfp : u.fp with
  | none => exact .inl ⟨rfl, by simpa [hfp] using h.symm⟩
  | some file => exact .inr ⟨file, rfl, by simpa [hfp] using h⟩

/-- What a line leaves behind. -/
theorem writeLine_eq_some {file : LogFile} (hfp : s.fp = some file) (h : s.writeLine now len = some t) :
    (len ≤ 0 ∧ t = s) ∨ (0 < len ∧ t = { s with
      lastSecond := now, curSize := s.curSize + len, events := s.events ++ [.wrote file now s.curSize] }) := by
  simp only [writeLine, hfp] at h
  split at h
  · next hlen => exact .inl ⟨hlen, (Option.some.inj h).symm⟩
  · next hlen =>
    obtain ⟨-, h⟩ := Option.ite_none_left_eq_some.mp h
    exact .inr ⟨not_le.mp hlen, by rw [← Option.some.inj h, hfp]⟩

/-- What a round and a line keep is kept from the loop on. -/
theorem keeps_of_writeFrom {P : Logger → Prop}
    (hnext : ∀ s length, s.fp ≠ none → P s → P (s.nextLogFile offset now length))
    (hline : ∀ s file, s.curSize < maxSize → P s → P { s with
      lastSecond := now, curSize := s.curSize + len, events := s.events ++ [.wrote file now s.curSize] })
    (h : s.writeFrom offset now opens len = some t) (hfp : s.fp ≠ none) (hs : P s) : P t := by
  obtain ⟨u, hu, hend⟩ := writeFrom_eq_some h
  have hloop : P u := keeps_of_fillLoop hnext hu hfp hs
  obtain ⟨-, rfl⟩ | ⟨file, hfile, hwrite⟩ := hend
  · exact hloop
  · have hsize := curSize_lt_of_fillLoop hu (hfile ▸ Option.some_ne_none file)
    obtain ⟨-, rfl⟩ | ⟨-, rfl⟩ := writeLine_eq_some hfile hwrite
    · exact hloop
    · exact hline u file hsize hloop

/-! ## A call -/

variable {c : WriteLog}

/-- What a call does before the loop. -/
inductive WritePass (offset : ℤ) (s : Logger) (c : WriteLog) (t : Logger) : Prop where
  | refused (haccepts : s.accepts c = false) (ht : t = s)
  | unopened {opens : List (Option ℕ)} (haccepts : s.accepts c = true) (hneeds : s.needsFile c.now)
      (hopens : c.opens = none :: opens) (ht : t = { s with fp := none })
  | opened {length : ℕ} {opens : List (Option ℕ)} (haccepts : s.accepts c = true) (hneeds : s.needsFile c.now)
      (hopens : c.opens = some length :: opens)
      (hfrom : (s.openLogFile offset c.now (some length)).writeFrom offset c.now opens c.len = some t)
  | kept {file : LogFile} (haccepts : s.accepts c = true) (hneeds : ¬ s.needsFile c.now) (hfp : s.fp = some file)
      (hfrom : s.writeFrom offset c.now c.opens c.len = some t)

theorem writePass_of_writeLog (h : s.writeLog offset c = some t) : WritePass offset s c t := by
  rw [writeLog] at h
  cases haccepts : s.accepts c with
  | false =>
    rw [haccepts] at h
    exact .refused haccepts (Option.some.inj h).symm
  | true =>
    rw [haccepts, if_neg (by decide)] at h
    split at h
    · next hneeds =>
      cases hopens : c.opens with
      | nil =>
        rw [hopens] at h
        cases h
      | cons length opens =>
        rw [hopens] at h
        cases length with
        | none => exact .unopened haccepts hneeds hopens (Option.some.inj h).symm
        | some length => exact .opened haccepts hneeds hopens h
    · next hneeds =>
      obtain ⟨file, hfp⟩ := Option.ne_none_iff_exists'.mp (not_or.mp hneeds).1
      exact .kept haccepts hneeds hfp h

end Logger

end Chaos
