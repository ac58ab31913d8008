import Chaos.Poller

/-!
# The interest sets of the select backend

`Select::RegistFd` and `Select::CancelFd` of `net/Select.cpp`, as built without `_WIN32`. The bits of an
`fd_set` are a function of the descriptor.
-/
namespace Chaos

/-- `fds` are `m_rfds`, `m_wfds` and `m_efds`. -/
structure Select where
  rfds : ℕ → Bool
  wfds : ℕ → Bool
  efds : ℕ → Bool
  maxfd : ℤ

namespace Select

/-- `MAX_FD`. -/
def maxFd : ℕ := 1024

def empty : Select := ⟨fun _ => false, fun _ => false, fun _ => false, 0⟩

/-- `FD_SET`, or `FD_CLR` where `bit` is `false`, when the mask asks for it. -/
def putFd (fds : ℕ → Bool) (fd : ℕ) (asked bit : Bool) : ℕ → Bool :=
  if asked then Function.update fds fd bit else fds

def putAll (b : Select) (fd : ℕ) (ev : EvMask) (bit : Bool) : Select :=
  { b with
    rfds := putFd b.rfds fd (ev.meets evIoread) bit
    wfds := putFd b.wfds fd (ev.meets evIowrite) bit
    efds := putFd b.efds fd (ev.meets evIoexcept) bit }

def registFd (b : Select) (_care : Option EvMask) (fd : ℕ) (ev : EvMask) : Select × Bool :=
  (putAll { b with maxfd := if b.maxfd < fd then fd else b.maxfd } fd ev true, true)

def cancelFd (b : Select) (_care : Option EvMask) (fd : ℕ) (ev : EvMask) : Select :=
  if b.maxfd < fd then b
  else putAll { b with maxfd := if b.maxfd = fd then b.maxfd - 1 else b.maxfd } fd ev false

def backend : Backend Select := ⟨registFd, cancelFd⟩

/-- The bits of the descriptor are those of the mask, none without an event. -/
structure Shows (b : Select) (fd : ℕ) (care : Option EvMask) : Prop where
  read : b.rfds fd = (care.getD 0#16).meets evIoread
  write : b.wfds fd = (care.getD 0#16).meets evIowrite
  except : b.efds fd = (care.getD 0#16).meets evIoexcept

/-- `CancelFd` comes to the bits of the descriptor. -/
def Reaches (b : Select) (fd : ℕ) : Prop := (fd : ℤ) ≤ b.maxfd

instance (b : Select) (fd : ℕ) : Decidable (b.Reaches fd) := inferInstanceAs (Decidable ((fd : ℤ) ≤ b.maxfd))

theorem putFd_self (fds : ℕ → Bool) (fd : ℕ) (asked bit : Bool) :
    putFd fds fd asked bit fd = if asked then bit else fds fd := by
  rw [putFd]
  split_ifs
  · exact Function.update_self ..
  · rfl

theorem putFd_of_ne (fds : ℕ → Bool) {fd fd' : ℕ} (asked bit : Bool) (hne : fd' ≠ fd) :
    putFd fds fd asked bit fd' = fds fd' := by
  rw [putFd]
  split_ifs
  · exact Function.update_of_ne hne ..
  · rfl

section
variable {b : Select} {fd fd' : ℕ} {care : Option EvMask} {ev m : EvMask}

theorem Shows.putAll_of_ne (h : b.Shows fd' care) (hne : fd' ≠ fd) (ev : EvMask) (bit : Bool) (maxfd : ℤ) :
    (putAll { b with maxfd := maxfd } fd ev bit).Shows fd' care := by
  constructor
  · exact (putFd_of_ne _ _ _ hne).trans h.read
  · exact (putFd_of_ne _ _ _ hne).trans h.write
  · exact (putFd_of_ne _ _ _ hne).trans h.except

theorem Shows.putAll (h : b.Shows fd care) (op : EventUpdateOp) (ev : EvMask) (maxfd : ℤ) :
    (putAll { b with maxfd := maxfd } fd ev (decide (op = .add))).Shows fd (some (op.apply (care.getD 0#16) ev)) := by
  have hbit : ∀ {fds : ℕ → Bool} {i : ℕ} (_ : i < 16),
      fds fd = (care.getD 0#16).meets (BitVec.twoPow 16 i) →
        putFd fds fd (ev.meets (BitVec.twoPow 16 i)) (decide (op = .add)) fd =
          (op.apply (care.getD 0#16) ev).meets (BitVec.twoPow 16 i) := by
    intro fds i hi hfds
    rw [putFd_self, hfds, meets_apply_twoPow _ _ _ hi]
  constructor
  · exact @hbit b.rfds 0 (by decide) h.read
  · exact @hbit b.wfds 1 (by decide) h.write
  · exact @hbit b.efds 2 (by decide) h.except

theorem Shows.of_mask {care' : Option EvMask} (h : b.Shows fd care) (hcare : care'.getD 0#16 = care.getD 0#16) :
    b.Shows fd care' := by
  constructor
  · exact hcare ▸ h.read
  · exact hcare ▸ h.write
  · exact hcare ▸ h.except

theorem shows_registFd (h : b.Shows fd care) (c : Option EvMask) (ev : EvMask) :
    (registFd b c fd ev).1.Shows fd (some (care.getD 0#16 ||| ev)) :=
  h.putAll .add ev _

theorem shows_cancelFd (h : b.Shows fd care) (hreach : b.Reaches fd) (c : Option EvMask) :
    (cancelFd b c fd ev).Shows fd (some (care.getD 0#16 &&& ~~~ev)) := by
  rw [cancelFd, if_neg (not_lt.mpr hreach)]
  exact h.putAll .del ev _

theorem cancelFd_skip (hreach : ¬ b.Reaches fd) (c : Option EvMask) (ev : EvMask) : cancelFd b c fd ev = b :=
  if_pos (not_le.mp hreach)

theorem Shows.watched_iff {m' : EvMask} (h : b.Shows fd (some m)) :
    b.Shows fd (some m') ↔ m &&& ioCareEvent = m' &&& ioCareEvent := by
  have hbit {i : ℕ} (hi : i < 16) {bit : Bool} (hm : bit = m.meets (BitVec.twoPow 16 i)) :
      m &&& BitVec.twoPow 16 i = m' &&& BitVec.twoPow 16 i ↔ bit = m'.meets (BitVec.twoPow 16 i) := by
    rw [and_twoPow_eq_iff m m' hi, hm]
  have hread := @hbit 0 (by decide) _ h.read
  have hwrite := @hbit 1 (by decide) _ h.write
  have hexcept := @hbit 2 (by decide) _ h.except
  have hmask : ioCareEvent = BitVec.twoPow 16 0 ||| BitVec.twoPow 16 1 ||| BitVec.twoPow 16 2 := by decide
  rw [hmask, and_or_eq_iff, and_or_eq_iff, hread, hwrite, hexcept]
  exact ⟨fun h' => ⟨⟨h'.read, h'.write⟩, h'.except⟩, fun h' => ⟨h'.1.1, h'.1.2, h'.2⟩⟩

/-- No event shows as a mask without bits does. -/
theorem Shows.none_iff (h : b.Shows fd (some m)) : b.Shows fd none ↔ m.meets ioCareEvent = false := by
  have hzero : b.Shows fd none ↔ b.Shows fd (some 0#16) := ⟨fun h' => h'.of_mask rfl, fun h' => h'.of_mask rfl⟩
  rw [hzero, h.watched_iff, BitVec.zero_and, meets_eq_false_iff]

end

theorem exact_backend : backend.Exact ioCareEvent Shows Reaches where
  regist_new {_ _ m} h := ⟨rfl, (shows_registFd h (some m) m).of_mask (by simp)⟩
  regist_more {_ _ _ c ev} h _ := shows_registFd h (some c) ev
  cancel_some {_ _ _ c _} hreach h _ := shows_cancelFd h hreach (some c)
  cancel_all {_ _ m _} hreach h hclear := (shows_cancelFd h hreach (some m)).none_iff.mpr hclear
  cancel_none {b fd} m h := by
    by_cases hreach : b.Reaches fd
    · exact (shows_cancelFd h hreach none).of_mask (by simp)
    · have hskip : backend.cancelFd b none fd m = b := cancelFd_skip hreach none m
      rw [hskip]
      exact h
  cancel_skip {b fd _} c m hreach h := by
    have hskip : backend.cancelFd b c fd m = b := cancelFd_skip hreach c m
    rw [hskip]
    exact h
  watched_iff h := h.watched_iff
  of_none hnone h := h.none_iff.mp hnone
  none_of _ h hclear := h.none_iff.mpr hclear
  regist_frame c m hne h := h.putAll_of_ne hne m true _
  cancel_frame {b fd _ _} c m hne h := by
    by_cases hreach : b.Reaches fd
    · have hclear : backend.cancelFd b c fd m =
          Select.putAll { b with maxfd := if b.maxfd = fd then b.maxfd - 1 else b.maxfd } fd m false :=
        if_neg (not_lt.mpr hreach)
      rw [hclear]
      exact h.putAll_of_ne hne m false _
    · have hskip : backend.cancelFd b c fd m = b := cancelFd_skip hreach c m
      rw [hskip]
      exact h

theorem shows_empty (fd : ℕ) : empty.Shows fd none := ⟨rfl, rfl, rfl⟩

/-- A descriptor is in a set exactly when an event with the set's bit in its mask is registered for it. -/
def InterestExact (s : Poller Select) : Prop :=
  ∀ fd, (s.backend.rfds fd ↔ ∃ p, s.getEvent fd = some p ∧ (s.objs p).ev.meets evIoread) ∧
    (s.backend.wfds fd ↔ ∃ p, s.getEvent fd = some p ∧ (s.objs p).ev.meets evIowrite) ∧
      (s.backend.efds fd ↔ ∃ p, s.getEvent fd = some p ∧ (s.objs p).ev.meets evIoexcept)

theorem interestExact_iff (s : Poller Select) : InterestExact s ↔ s.Shown Shows := by
  refine forall_congr' fun fd => ?_
  have hsome (asked : EvMask) : (∃ p, s.getEvent fd = some p ∧ (s.objs p).ev.meets asked) ↔
      ((s.care fd).getD 0#16).meets asked = true := by
    cases hget : s.getEvent fd with
    | none =>
      rw [Poller.care_of_none hget]
      simp [EvMask.meets]
    | some p =>
      rw [Poller.care_of_getEvent hget]
      simp
  rw [hsome, hsome, hsome, ← Bool.eq_iff_iff, ← Bool.eq_iff_iff, ← Bool.eq_iff_iff]
  exact ⟨fun h => ⟨h.1, h.2.1, h.2.2⟩, fun h => ⟨h.read, h.write, h.except⟩⟩

open GuardedRuns in
/-- The sets are exact in every state of a run exactly where each step fits: `CancelFd` reaches the bits that it has to
clear, and an event that is not registered any more changes no bit of the one that has its descriptor. -/
theorem interest_exact_iff (objs : ℕ → Event) (ops : List Poller.Op) :
    Always (Poller.step backend) InterestExact (.start objs empty) ops ↔
      Guarded (Poller.step backend) (Poller.Fits ioCareEvent Reaches) (.start objs empty) ops :=
  Poller.always_shown_iff exact_backend interestExact_iff shows_empty ops

/-- Unregistered events with one mask, on all descriptors below `MAX_FD`. -/
def objsSample (ev : EvMask) : ℕ → Event := fun p => ⟨none, ev, [], p % maxFd, 0, 0, false, false⟩

/-- An event whose writing is disabled and then its reading. -/
def disableSample : List Poller.Op := [.add 5, .update 5 .del evIowrite, .update 5 .del evIoread]

def disableEnd : Poller Select :=
  (GuardedRuns.exec (Poller.step backend) (.start (objsSample evIoread) empty) disableSample).get (by decide +kernel)

/-- The first clear lowers `m_maxfd` below the descriptor, the second one then does nothing. -/
theorem not_interest_exact :
    ¬ ∀ (objs : ℕ → Event) (ops : List Poller.Op) (s : Poller Select), (∀ p, (objs p).evKey < maxFd) →
      GuardedRuns.exec (Poller.step backend) (.start objs empty) ops = some s → InterestExact s := by
  intro h
  have hfds : ∀ p, (objsSample evIoread p).evKey < maxFd := fun p => Nat.mod_lt p (by decide)
  have hexact := (h (objsSample evIoread) disableSample disableEnd hfds (Option.some_get _).symm 5).1
  have hset : disableEnd.backend.rfds 5 = true := by decide +kernel
  obtain ⟨p, hp, hmask⟩ := hexact.mp hset
  have hget : disableEnd.getEvent 5 = some 5 := by decide +kernel
  have hclear : (disableEnd.objs 5).ev.meets evIoread = false := by decide +kernel
  rw [← Option.some.inj (hget.symm.trans hp), hclear] at hmask
  cases hmask

end Select

end Chaos
