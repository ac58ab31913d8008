import Mathlib.Data.Int.Notation
import Mathlib.Order.Lattice
import Mathlib.Algebra.Order.Group.Int

/-!
# Dates of the Gregorian calendar

A day is a number counted from the first of January 1970, a date is a year, a month and a day of the month. The year
is taken to begin in March, so that the day that not every year has is the last one.
-/
namespace Chaos.CivilDates

structure Date where
  year : ℤ
  month : ℤ
  day : ℤ
  deriving DecidableEq, Repr

/-- Where a day lies: the cycle of 400 years, the century in it, the four years in that, the year, and the day of
the year. The last century of a cycle and the last of four years are a day longer. -/
structure Place where
  cycle : ℤ
  century : ℤ
  four : ℤ
  year : ℤ
  day : ℤ

def place (n : ℤ) : Place :=
  let inCycle := (n + 719468) % 146097
  let century := min (inCycle / 36524) 3
  let inCentury := inCycle - 36524 * century
  let four := inCentury / 1461
  let inFour := inCentury - 1461 * four
  let year := min (inFour / 365) 3
  ⟨(n + 719468) / 146097, century, four, year, inFour - 365 * year⟩

/-- The months have 153 days in each five from March on; `m` counts them from there. -/
def Place.date (p : Place) : Date :=
  let year := 400 * p.cycle + 100 * p.century + 4 * p.four + p.year
  let m := (5 * p.day + 2) / 153
  if m < 10 then ⟨year, m + 3, p.day - (153 * m + 2) / 5 + 1⟩ else ⟨year + 1, m - 9, p.day - (153 * m + 2) / 5 + 1⟩

def ofDay (n : ℤ) : Date := (place n).date

/-- The days of the year 2000 around its leap day, and the first one. -/
example : ofDay 0 = ⟨1970, 1, 1⟩ ∧ ofDay 11016 = ⟨2000, 2, 29⟩ ∧ ofDay 11017 = ⟨2000, 3, 1⟩ := by decide

/-- The bounds of a place. -/
structure Place.Valid (p : Place) : Prop where
  century : 0 ≤ p.century ∧ p.century ≤ 3
  four : 0 ≤ p.four ∧ p.four ≤ 24
  year : 0 ≤ p.year ∧ p.year ≤ 3
  day : 0 ≤ p.day ∧ p.day ≤ 365

theorem valid_place (n : ℤ) : (place n).Valid := by
  have hpos := Int.emod_nonneg (n + 719468) (show (146097 : ℤ) ≠ 0 by decide)
  have hlt := Int.emod_lt_of_pos (n + 719468) (show (0 : ℤ) < 146097 by decide)
  refine ⟨?_, ?_, ?_, ?_⟩ <;> simp only [place] <;> generalize (n + 719468) % 146097 = d at hpos hlt <;> omega

/-- The day of a place. -/
def Place.toDay (p : Place) : ℤ :=
  146097 * p.cycle + 36524 * p.century + 1461 * p.four + 365 * p.year + p.day - 719468

theorem toDay_place (n : ℤ) : (place n).toDay = n := by
  simp only [place, Place.toDay]
  omega

/-- The parts of a year number are its digits. -/
theorem eq_of_year_eq {p q : Place} (hp : p.Valid) (hq : q.Valid)
    (h : 400 * p.cycle + 100 * p.century + 4 * p.four + p.year = 400 * q.cycle + 100 * q.century + 4 * q.four + q.year)
    (hday : p.day = q.day) : p = q := by
  obtain ⟨hc, hf, hy, -⟩ := hp
  obtain ⟨hc', hf', hy', -⟩ := hq
  obtain ⟨cycle, century, four, year, day⟩ := p
  obtain ⟨cycle', century', four', year', day'⟩ := q
  simp only at *
  have hcycle : cycle = cycle' := by omega
  have hcentury : century = century' := by omega
  have hfour : four = four' := by omega
  have hyear : year = year' := by omega
  rw [hcycle, hcentury, hfour, hyear, hday]

/-- Different places have different dates. -/
theorem date_inj {p q : Place} (hp : p.Valid) (hq : q.Valid) (h : p.date = q.date) : p = q := by
  have hday := hp.day
  have hday' := hq.day
  simp only [Place.date] at h
  split at h <;> split at h <;> rw [Date.mk.injEq] at h
  · exact eq_of_year_eq hp hq h.1 (by omega)
  · omega
  · omega
  · exact eq_of_year_eq hp hq (by omega) (by omega)

theorem ofDay_inj {m n : ℤ} : ofDay m = ofDay n ↔ m = n := by
  constructor
  · intro h
    rw [← toDay_place m, ← toDay_place n, date_inj (valid_place m) (valid_place n) h]
  · intro h
    rw [h]

end Chaos.CivilDates
