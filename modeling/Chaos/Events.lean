import Chaos.EventFlags
import Mathlib.Logic.Function.Basic

/-!
# Event objects

The fields of `Event` and `TimerEvent` (`net/Event.h`), and the objects that exist: an address, which is
never used twice, holds an object as long as the user or a registry has a `shared_ptr` to it. A weak
pointer is an address too, expired when nothing is there.
-/
namespace Chaos

/-- `timeoutMs` and what follows are the fields of `TimerEvent`. -/
structure Event where
  centre : Option ℕ
  ev : EvMask
  curEv : List EvMask
  evKey : ℕ
  timeoutMs : ℕ
  nextTime : ℕ
  isLoop : Bool
  isSuspend : Bool
  deriving DecidableEq, Repr

/-- `held` is whether the user has a `shared_ptr`, `owned` how many entries of `m_events` and
`m_timerMap` have one, `curTimers` the counter `Timer::s_curTimers`. -/
structure Objects where
  store : ℕ → Option Event
  held : ℕ → Bool
  owned : ℕ → ℕ
  fresh : ℕ
  curTimers : ℕ

namespace Event

def getCurEv (e : Event) : EvMask := e.curEv.headD 0#16

def pushCurEv (e : Event) (ev : EvMask) : Event := { e with curEv := e.curEv ++ [ev] }

def popCurEv (e : Event) : Event := { e with curEv := e.curEv.tail }

end Event

namespace Objects

def empty : Objects := ⟨fun _ => none, fun _ => false, fun _ => 0, 0, 0⟩

/-- The event at a fresh address, held by the user. -/
def create (o : Objects) (e : Event) : Objects :=
  { o with
    store := Function.update o.store o.fresh (some e)
    held := Function.update o.held o.fresh true
    fresh := o.fresh + 1 }

def modify (o : Objects) (p : ℕ) (f : Event → Event) : Objects :=
  { o with store := Function.update o.store p ((o.store p).map f) }

/-- The object goes when nobody has it any more. -/
def release (o : Objects) (p : ℕ) : Objects :=
  if o.held p = false ∧ o.owned p = 0 then { o with store := Function.update o.store p none } else o

def addOwner (o : Objects) (p : ℕ) : Objects :=
  { o with owned := Function.update o.owned p (o.owned p + 1) }

def dropOwner (o : Objects) (p : ℕ) : Objects :=
  { o with owned := Function.update o.owned p (o.owned p - 1) }

/-- The user's last `shared_ptr` goes. -/
def drop (o : Objects) (p : ℕ) : Objects :=
  { o with held := Function.update o.held p false }.release p

section
variable (o : Objects) (p q : ℕ)

@[simp] theorem modify_self (f : Event → Event) : (o.modify p f).store p = (o.store p).map f := by
  simp [modify]

theorem modify_of_ne (f : Event → Event) (h : q ≠ p) : (o.modify p f).store q = o.store q := by
  simp [modify, h]

@[simp] theorem addOwner_store : (o.addOwner p).store = o.store := rfl

/-- A release leaves every object as it is or takes one away. -/
theorem release_store : (o.release p).store q = o.store q ∨ q = p ∧ (o.release p).store q = none := by
  rw [release]
  split_ifs
  · rcases eq_or_ne q p with rfl | hne
    · exact Or.inr ⟨rfl, Function.update_self ..⟩
    · exact Or.inl (Function.update_of_ne hne ..)
  · exact Or.inl rfl

@[simp] theorem release_curTimers : (o.release p).curTimers = o.curTimers := by
  rw [release]
  split_ifs <;> rfl

@[simp] theorem release_held : (o.release p).held = o.held := by
  rw [release]
  split_ifs <;> rfl

@[simp] theorem release_owned : (o.release p).owned = o.owned := by
  rw [release]
  split_ifs <;> rfl

@[simp] theorem release_fresh : (o.release p).fresh = o.fresh := by
  rw [release]
  split_ifs <;> rfl

theorem release_store_of_ne (h : q ≠ p) : (o.release p).store q = o.store q := by
  rcases o.release_store p q with hq | ⟨hq, _⟩
  · exact hq
  · exact absurd hq h

@[simp] theorem drop_fresh : (o.drop p).fresh = o.fresh := by
  rw [drop]
  exact release_fresh _ p

theorem drop_store : (o.drop p).store q = o.store q ∨ q = p ∧ (o.drop p).store q = none :=
  release_store { o with held := Function.update o.held p false } p q

end

end Objects

end Chaos
