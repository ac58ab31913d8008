import Chaos.EventCentre
import Chaos.TimerLaunch

/-!
# How long the loop sleeps

`GetNextTimeout` narrows the 64-bit difference of the front's deadline and the clock to an `int` before it
looks at the sign. The answer is right as long as the difference fits: a deadline that lies 2^31 ms ahead
already shows as passed, and one that passed long ago may show as ahead.
-/
namespace Chaos.Timer

open Word32

/-- The answer is 0 exactly when the deadline is not ahead, and is else no longer than the time until then. -/
structure TimeoutRight (timeout : ℤ) (e : Event) (clk : ℕ) : Prop where
  zero : timeout = 0 ↔ e.nextTime ≤ clk
  ahead : clk < e.nextTime → 0 < timeout ∧ timeout ≤ (e.nextTime : ℤ) - clk

/-- Ahead, the difference is positive in 32 bits; late, it is not. -/
def Narrows (e : Event) (clk : ℕ) : Prop :=
  (clk < e.nextTime → 0 < (e.nextTime - clk) % word32 ∧ (e.nextTime - clk) % word32 < 2 ^ 31) ∧
    (e.nextTime ≤ clk → (clk - e.nextTime) % word32 ≤ 2 ^ 31)

instance (e : Event) (clk : ℕ) : Decidable (Narrows e clk) := inferInstanceAs (Decidable (_ ∧ _))

/-- The sign of a difference that was narrowed. -/
theorem bmod_pos_iff (x : ℤ) : 0 < x.bmod 4294967296 ↔ 0 < x % 4294967296 ∧ x % 4294967296 < 2147483648 := by
  rw [Int.bmod]
  split_ifs <;> omega

theorem bmod_le_of_pos {x : ℤ} (hx : 0 < x) : x.bmod 4294967296 ≤ x := by
  rw [Int.bmod]
  split_ifs <;> omega

theorem timeoutRight_iff (e : Event) (clk : ℕ) :
    TimeoutRight (if ((e.nextTime : ℤ) - clk).bmod 4294967296 > 0 then ((e.nextTime : ℤ) - clk).bmod 4294967296
      else 0) e clk ↔ Narrows e clk := by
  have hpos := bmod_pos_iff ((e.nextTime : ℤ) - clk)
  rw [Narrows, word32]
  constructor
  · rintro ⟨hzero, hahead⟩
    refine ⟨fun hlt => ?_, fun hle => ?_⟩
    · have hans := (hahead hlt).1
      split_ifs at hans <;> omega
    · have hans := hzero.mpr hle
      split_ifs at hans <;> omega
  · rintro ⟨hahead, hlate⟩
    constructor
    · rcases Nat.lt_or_ge clk e.nextTime with hlt | hle
      · have hnarrow := hahead hlt
        have hshow : 0 < ((e.nextTime : ℤ) - clk).bmod 4294967296 := by omega
        rw [if_pos hshow]
        omega
      · have hnarrow := hlate hle
        have hshow : ¬ 0 < ((e.nextTime : ℤ) - clk).bmod 4294967296 := by omega
        rw [if_neg hshow]
        exact iff_of_true rfl hle
    · intro hlt
      have hnarrow := hahead hlt
      have hshow : 0 < ((e.nextTime : ℤ) - clk).bmod 4294967296 := by omega
      rw [if_pos hshow]
      exact ⟨hshow, bmod_le_of_pos (by omega)⟩

/-- For a live front timer the timeout, and with nothing active the sleep of the loop, are right exactly when
the difference narrows. -/
theorem timeout_right_iff {s : CentreState} {p : ℕ} {e : Event} (hfront : s.centre.timer.heap.front = some p)
    (hp : s.objs.store p = some e) (clk : ℕ) :
    TimeoutRight (getNextTimeout s.objs s.centre.timer clk) e clk ∧
        (s.centre.activeEvs = [] → TimeoutRight (s.calculateTimeoutMs clk) e clk) ↔ Narrows e clk := by
  have htimeout : getNextTimeout s.objs s.centre.timer clk =
      if ((e.nextTime : ℤ) - clk).bmod 4294967296 > 0 then ((e.nextTime : ℤ) - clk).bmod 4294967296 else 0 := by
    rw [getNextTimeout, hfront]
    simp only [hp]
  rw [CentreState.calculateTimeoutMs, htimeout, timeoutRight_iff]
  constructor
  · exact fun h => h.1
  · intro h
    refine ⟨h, fun hnone => ?_⟩
    rw [if_neg (not_not.mpr hnone), timeoutRight_iff]
    exact h

/-- A centre with a timer that was made and registered at the time 0. -/
def sleeping (timeoutMs : ℕ) : CentreState where
  objs := (((startObjects 1 fun _ => 3).create (newEvent timeoutCartEvent 1 timeoutMs 0 false)).setCentre 1
    (some 0)).addOwner 1
  centre := { EventCentre.new 0 3 with timer := ⟨⟨[1], 64⟩, [(1, 1)]⟩, eventsNum := 2 }

def sleepingTimer (timeoutMs : ℕ) : Event :=
  { newEvent timeoutCartEvent 1 timeoutMs 0 false with centre := some 0 }

theorem timeout_right_iff_sample :
    TimeoutRight (getNextTimeout (sleeping 5000).objs (sleeping 5000).centre.timer 1200) (sleepingTimer 5000) 1200 ∧
        ((sleeping 5000).centre.activeEvs = [] →
          TimeoutRight ((sleeping 5000).calculateTimeoutMs 1200) (sleepingTimer 5000) 1200) ↔
      Narrows (sleepingTimer 5000) 1200 :=
  @timeout_right_iff (sleeping 5000) 1 (sleepingTimer 5000) rfl rfl 1200

/-- A timer of 2^31 ms shows as due at once. -/
theorem not_timeout_right :
    ¬ ∀ timeoutMs < word32, ∀ clk,
      TimeoutRight (getNextTimeout (sleeping timeoutMs).objs (sleeping timeoutMs).centre.timer clk)
        (sleepingTimer timeoutMs) clk := by
  intro hall
  have hnow := (hall (2 ^ 31) (by decide) 0).zero
  revert hnow
  decide +kernel

end Chaos.Timer
