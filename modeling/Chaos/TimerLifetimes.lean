import Chaos.KeyLists
import Chaos.TimerIds

/-!
# The ids of living timers

A timer takes its id when it is constructed and gives it back when it is destroyed; `AddTimer` and `DelTimer`
count registrations in `s_curTimers`. The bitmap grows by that count and not by the bits in use, so timers
that nobody registers can fill it.
-/
namespace Chaos.TimerIds

open GuardedRuns KeyLists Word32

/-! ## When a creation finds an id -/

/-- The bitmap grows, or one of its bits is clear whose id fits into 32 bits. -/
def CanCreate (ids : List (BitVec 8)) (curTimers : ℕ) : Prop :=
  curTimers ≥ ids.length * byte2bit ∨
    ∃ pos < ids.length, ∃ bit < 8, bitAt ids pos bit = false ∧ pos * 8 + bit + 1 < word32

instance (ids : List (BitVec 8)) (curTimers : ℕ) : Decidable (CanCreate ids curTimers) :=
  inferInstanceAs (Decidable (_ ∨ _))

section Create
variable {ids : List (BitVec 8)} {curTimers : ℕ}

/-- A clear bit that fits is found, or one before it. -/
theorem createTimerID_of_clear (hsize : (growIds ids curTimers).length ≤ 536870912) {pos bit : ℕ}
    (hpos : pos < (growIds ids curTimers).length) (hbit : bit < 8)
    (hclear : bitAt (growIds ids curTimers) pos bit = false) (hfits : pos * 8 + bit + 1 < word32) :
    (createTimerID ids curTimers).1 ≠ 0 := by
  have hmod : (growIds ids curTimers).length % word32 = (growIds ids curTimers).length :=
    Nat.mod_eq_of_lt (by rw [word32]; omega)
  obtain ⟨p, b, hscan, hle⟩ := scanIds_le 0 hpos hbit hclear
  have hfree : freeBit (growIds ids curTimers) = some (p, b) := by
    rw [freeBit, hmod, List.take_length, hscan]
  rw [createTimerID, hfree]
  dsimp only
  rw [idOf, add32, byte2bit, Nat.mod_eq_of_lt (by omega)]
  omega

theorem createTimerID_ne_zero_iff (hids : ids.length ≤ 536870912) (hcur : curTimers < word32) :
    (createTimerID ids curTimers).1 ≠ 0 ↔ CanCreate ids curTimers := by
  have hsize := (length_growIds hids hcur).2
  by_cases hgrow : curTimers ≥ ids.length * byte2bit
  · refine iff_of_true ?_ (Or.inl hgrow)
    have hnew : growIds ids curTimers = ids ++ [0#8] := if_pos hgrow
    rw [byte2bit] at hgrow
    refine @createTimerID_of_clear ids curTimers hsize ids.length 0 ?_ (by decide) ?_ ?_
    · rw [hnew, List.length_append]
      exact Nat.lt_succ_self _
    · rw [bitAt_growIds, bitAt, List.getD_eq_default _ _ le_rfl]
      decide
    · rw [word32] at hcur ⊢
      omega
  · have hsame : growIds ids curTimers = ids := if_neg hgrow
    rw [hsame] at hsize
    constructor
    · intro hid
      right
      rw [createTimerID, hsame] at hid
      cases hfree : freeBit ids with
      | none =>
        rw [hfree] at hid
        exact absurd rfl hid
      | some found =>
        obtain ⟨pos, bit⟩ := found
        obtain ⟨hpos, hbit, hclear⟩ := freeBit_eq_some hids hfree
        refine ⟨pos, hpos, bit, hbit, hclear, ?_⟩
        rw [hfree] at hid
        dsimp only at hid
        rw [idOf, add32, byte2bit, word32] at hid
        rw [word32]
        omega
    · rintro (hbits | ⟨pos, hpos, bit, hbit, hclear, hfits⟩)
      · exact absurd hbits hgrow
      · refine createTimerID_of_clear (by rwa [hsame]) (by rwa [hsame]) hbit ?_ hfits
        rwa [bitAt_growIds]

end Create

/-! ## Constructing, registering, deleting and destroying -/

/-- An id in the `m_timerMap` of a `Timer`. -/
structure MapKey where
  timer : ℕ
  id : ℕ
  deriving DecidableEq, Repr

/-- The timers there are, with the id and the bit of each, and what is registered, the maps of every `Timer` in
one list. -/
structure TimerLife where
  ids : List (BitVec 8)
  curTimers : ℕ
  timers : List (ℕ × HeldId)
  timerMaps : List (MapKey × ℕ)
  fresh : ℕ

inductive LifeOp where
  | construct
  | add (timer p : ℕ)
  | del (timer p : ℕ)
  | destroy (p : ℕ)

def TimerLife.start : TimerLife := ⟨initIds, 0, [], [], 0⟩

/-- The key of the next timer. -/
def newHeld (ids : List (BitVec 8)) (curTimers : ℕ) : HeldId :=
  let found := (freeBit (growIds ids curTimers)).getD (0, 0)
  ⟨(createTimerID ids curTimers).1, found.1, found.2⟩

/-- `AddTimer` refuses an id that is there; a timer that is registered somewhere is not destroyed. -/
def lifeStep (s : TimerLife) : LifeOp → Option TimerLife
  | .construct => some { s with
      ids := (createTimerID s.ids s.curTimers).2
      timers := (s.fresh, newHeld s.ids s.curTimers) :: s.timers
      fresh := s.fresh + 1 }
  | .add timer p => (s.timers.lookup p).map fun h =>
    if (s.timerMaps.lookup ⟨timer, h.id⟩).isSome then s
    else { s with timerMaps := (⟨timer, h.id⟩, p) :: s.timerMaps, curTimers := add32 s.curTimers 1 }
  | .del timer p => (s.timers.lookup p).map fun h =>
    { s with timerMaps := eraseKey s.timerMaps ⟨timer, h.id⟩, curTimers := sub32 s.curTimers 1 }
  | .destroy p =>
    if p ∈ s.timerMaps.map Prod.snd then none
    else (s.timers.lookup p).map fun h =>
      { s with ids := releaseTimerID s.ids h.id, timers := eraseKey s.timers p }

/-- A construction finds an id, and the id of a timer that is destroyed is no multiple of 8, or no timer has
the id 8 above it. -/
def lifeOk (s : TimerLife) : LifeOp → Prop
  | .construct => CanCreate s.ids s.curTimers
  | .destroy p => ∀ h ∈ s.timers.lookup p, h.id % byte2bit = 0 → ∀ t ∈ s.timers, t.2.id ≠ h.id + 8
  | .add _ _ | .del _ _ => True

instance (s : TimerLife) : (op : LifeOp) → Decidable (lifeOk s op)
  | .construct => inferInstanceAs (Decidable (CanCreate s.ids s.curTimers))
  | .destroy p => inferInstanceAs (Decidable (∀ h ∈ s.timers.lookup p, _))
  | .add _ _ | .del _ _ => isTrue trivial

structure LifeInv (s : TimerLife) : Prop where
  size : s.ids.length ≤ 536870912
  counter : s.curTimers < word32
  held : ∀ t ∈ s.timers, HeldOk s.ids t.2
  distinct : (s.timers.map fun t => t.2.id).Nodup
  addresses : KeysNodup s.timers
  fresh : ∀ t ∈ s.timers, t.1 < s.fresh
  registered : ∀ entry ∈ s.timerMaps, ∃ h, (entry.2, h) ∈ s.timers ∧ h.id = entry.1.id

theorem lifeInv_start : LifeInv .start := by
  refine ⟨by simp [TimerLife.start, initIds, initIdSize], by decide, ?_, List.nodup_nil, List.nodup_nil, ?_, ?_⟩
  all_goals exact fun _ h => absurd h List.not_mem_nil

theorem LifeInv.construct {s : TimerLife} (h : LifeInv s) (hok : CanCreate s.ids s.curTimers) :
    LifeInv { s with
      ids := (createTimerID s.ids s.curTimers).2
      timers := (s.fresh, newHeld s.ids s.curTimers) :: s.timers
      fresh := s.fresh + 1 } := by
  have hid := (createTimerID_ne_zero_iff h.size h.counter).mpr hok
  obtain ⟨hnew, hother⟩ : HeldOk (createTimerID s.ids s.curTimers).2 (newHeld s.ids s.curTimers) ∧
      ∀ k, HeldOk s.ids k → k.id ≠ (newHeld s.ids s.curTimers).id := by
    cases hfree : freeBit (growIds s.ids s.curTimers) with
    | none =>
      rw [createTimerID, hfree] at hid
      exact absurd rfl hid
    | some found =>
      rw [newHeld, hfree]
      exact heldOk_new h.size h.counter hfree hid
  refine ⟨(length_createTimerID h.size h.counter).2, h.counter, ?_, ?_, ?_, ?_, ?_⟩
  · exact List.forall_mem_cons.mpr ⟨hnew, fun t ht => (h.held t ht).create h.size h.counter⟩
  · refine List.nodup_cons.mpr ⟨fun hmem => ?_, h.distinct⟩
    obtain ⟨t, ht, htid⟩ := List.mem_map.mp hmem
    exact hother t.2 (h.held t ht) htid
  · refine List.nodup_cons.mpr ⟨fun hmem => ?_, h.addresses⟩
    obtain ⟨t, ht, haddr⟩ := List.mem_map.mp hmem
    exact (h.fresh t ht).ne haddr
  · refine List.forall_mem_cons.mpr ⟨Nat.lt_succ_self _, fun t ht => ?_⟩
    exact (h.fresh t ht).trans (Nat.lt_succ_self _)
  · intro entry hentry
    obtain ⟨k, hk, hkid⟩ := h.registered entry hentry
    exact ⟨k, List.mem_cons_of_mem _ hk, hkid⟩

theorem LifeInv.destroy {s : TimerLife} (h : LifeInv s) {p : ℕ} {k : HeldId} (hp : s.timers.lookup p = some k)
    (hfree : p ∉ s.timerMaps.map Prod.snd) (hok : k.id % byte2bit = 0 → ∀ t ∈ s.timers, t.2.id ≠ k.id + 8) :
    LifeInv { s with ids := releaseTimerID s.ids k.id, timers := eraseKey s.timers p } := by
  have hmem := mem_of_lookup hp
  have hk := h.held _ hmem
  refine ⟨?_, h.counter, ?_, ?_, h.addresses.eraseKey p, ?_, ?_⟩
  · rw [length_releaseTimerID]
    exact h.size
  · intro t ht
    obtain ⟨ht, hne⟩ := mem_eraseKey.mp ht
    refine (h.held t ht).keep hk ?_ fun hzero => hok hzero t ht
    intro hid
    exact hne (congrArg Prod.fst (List.inj_on_of_nodup_map h.distinct ht hmem hid))
  · exact h.distinct.sublist (List.filter_sublist.map _)
  · exact fun t ht => h.fresh t (mem_eraseKey.mp ht).1
  · intro entry hentry
    obtain ⟨k', hk', hid⟩ := h.registered entry hentry
    refine ⟨k', mem_eraseKey.mpr ⟨hk', ?_⟩, hid⟩
    rintro rfl
    exact hfree (List.mem_map_of_mem hentry)

/-- The step lemma. -/
theorem lifeInv_step {s t : TimerLife} {op : LifeOp} (h : LifeInv s) (hok : lifeOk s op)
    (ht : lifeStep s op = some t) : LifeInv t := by
  cases op with
  | construct =>
    obtain rfl := Option.some.inj ht
    exact h.construct hok
  | add timer p =>
    obtain ⟨k, hk, rfl⟩ := Option.map_eq_some_iff.mp ht
    split_ifs
    · exact h
    · refine ⟨h.size, add32_lt _ _, h.held, h.distinct, h.addresses, h.fresh, ?_⟩
      exact List.forall_mem_cons.mpr ⟨⟨k, mem_of_lookup hk, rfl⟩, h.registered⟩
  | del timer p =>
    obtain ⟨k, hk, rfl⟩ := Option.map_eq_some_iff.mp ht
    refine ⟨h.size, sub32_lt h.counter _, h.held, h.distinct, h.addresses, h.fresh, ?_⟩
    exact fun entry hentry => h.registered entry (mem_eraseKey.mp hentry).1
  | destroy p =>
    rw [lifeStep] at ht
    obtain ⟨hfree, ht⟩ := Option.ite_none_left_eq_some.mp ht
    obtain ⟨k, hk, rfl⟩ := Option.map_eq_some_iff.mp ht
    exact h.destroy hk hfree (hok k hk)

/-- In a run that meets the condition at every step no timer has the id 0, no two have the same id, `AddTimer`
finds no other timer under the id, and the next construction finds an id exactly when it meets the condition. -/
theorem ids_never_run_out {ops : List LifeOp} {s : TimerLife} (hg : Guarded lifeStep lifeOk .start ops)
    (hs : exec lifeStep .start ops = some s) :
    (∀ t ∈ s.timers, t.2.id ≠ 0) ∧ (s.timers.map fun t => t.2.id).Nodup ∧
      (∀ timer, ∀ t ∈ s.timers, ∀ p ∈ s.timerMaps.lookup ⟨timer, t.2.id⟩, p = t.1) ∧
      ((createTimerID s.ids s.curTimers).1 ≠ 0 ↔ CanCreate s.ids s.curTimers) := by
  have hinv : LifeInv s := invariant_of_guarded (fun _ _ _ => lifeInv_step) lifeInv_start hg hs
  refine ⟨?_, hinv.distinct, ?_, createTimerID_ne_zero_iff hinv.size hinv.counter⟩
  · intro t ht
    rw [(hinv.held t ht).number]
    exact Nat.succ_ne_zero _
  · intro timer t ht p hp
    obtain ⟨k, hk, hid⟩ := hinv.registered _ (mem_of_lookup (Option.mem_def.mp hp))
    exact congrArg Prod.fst (List.inj_on_of_nodup_map hinv.distinct hk ht hid)

/-- Timers of two centres, one of them destroyed with an id that is a multiple of 8. -/
def lifeSample : List LifeOp :=
  List.replicate 10 .construct ++ [.add 0 3, .add 1 4, .add 0 3, .del 0 3, .destroy 3, .destroy 7, .construct,
    .add 1 10, .del 1 5]

theorem lifeSample_isSome : (exec lifeStep .start lifeSample).isSome := by decide +kernel

def lifeSampleEnd : TimerLife := (exec lifeStep .start lifeSample).get lifeSample_isSome

theorem ids_never_run_out_sample :
    (∀ t ∈ lifeSampleEnd.timers, t.2.id ≠ 0) ∧ (lifeSampleEnd.timers.map fun t => t.2.id).Nodup ∧
      (∀ timer, ∀ t ∈ lifeSampleEnd.timers, ∀ p ∈ lifeSampleEnd.timerMaps.lookup ⟨timer, t.2.id⟩, p = t.1) ∧
      ((createTimerID lifeSampleEnd.ids lifeSampleEnd.curTimers).1 ≠ 0 ↔
        CanCreate lifeSampleEnd.ids lifeSampleEnd.curTimers) :=
  ids_never_run_out (show Guarded lifeStep lifeOk .start lifeSample by decide +kernel) (Option.some_get _).symm

/-! ## Timers that nobody registers -/

/-- The bitmap with its first `k` bytes full. -/
def fullUpTo (k : ℕ) : List (BitVec 8) := List.replicate k 255#8 ++ List.replicate (initIdSize - k) 0#8

theorem scanIds_full (k i : ℕ) (ids : List (BitVec 8)) :
    scanIds (List.replicate k 255#8 ++ ids) i = scanIds ids (i + k) := by
  induction k generalizing i with
  | zero => rfl
  | succ k ih =>
    have hfull : scanByte 255#8 byte2bit 0 = none := by decide
    rw [List.replicate_succ, List.cons_append, scanIds, hfull]
    dsimp only
    rw [ih, Nat.add_right_comm, Nat.add_assoc]

/-- One more bit of the first byte that is not full. -/
theorem construct_byte {k n bit : ℕ} {byte : BitVec 8} {s : TimerLife} (hbit : scanByte byte byte2bit 0 = some bit)
    (hids : s.ids = List.replicate k 255#8 ++ byte :: List.replicate n 0#8) (hlen : k + n < initIdSize)
    (hcur : s.curTimers = 0) : ∃ t, lifeStep s .construct = some t ∧ t.curTimers = 0 ∧
      t.ids = List.replicate k 255#8 ++ setBit byte bit :: List.replicate n 0#8 := by
  refine ⟨_, rfl, hcur, ?_⟩
  rw [initIdSize] at hlen
  have hlength : s.ids.length = k + n + 1 := by
    rw [hids, List.length_append, List.length_cons, List.length_replicate, List.length_replicate]
    omega
  have hgrow : growIds s.ids s.curTimers = s.ids := by
    rw [growIds, hcur, if_neg]
    rw [hlength, byte2bit]
    omega
  have hfree : freeBit s.ids = some (k, bit) := by
    rw [freeBit, Nat.mod_eq_of_lt (by rw [hlength, word32]; omega), List.take_length, hids, scanIds_full, scanIds, hbit]
    simp
  dsimp only
  rw [createTimerID, hgrow, hfree]
  dsimp only
  rw [hids, List.set_append_right _ _ (by simp), List.getD_append_right _ _ _ _ (by simp)]
  simp

/-- A byte with its first `m` bits set. -/
def lowBits (m : ℕ) : BitVec 8 := BitVec.ofNat 8 (2 ^ m - 1)

theorem lowBits_succ : ∀ m < 8, scanByte (lowBits m) byte2bit 0 = some m ∧ setBit (lowBits m) m = lowBits (m + 1) := by
  decide

/-- Constructions fill a byte bit by bit. -/
theorem construct_bits {k m : ℕ} (hk : k < initIdSize) (hm : m ≤ 8) {s : TimerLife} (hids : s.ids = fullUpTo k)
    (hcur : s.curTimers = 0) : ∃ t, exec lifeStep s (List.replicate m .construct) = some t ∧ t.curTimers = 0 ∧
      t.ids = List.replicate k 255#8 ++ lowBits m :: List.replicate (initIdSize - (k + 1)) 0#8 := by
  induction m with
  | zero =>
    refine ⟨s, rfl, hcur, ?_⟩
    rw [hids, fullUpTo, show initIdSize - k = initIdSize - (k + 1) + 1 by omega, List.replicate_succ]
    rfl
  | succ m ih =>
    obtain ⟨t, ht, htcur, htids⟩ := ih (Nat.le_of_succ_le hm)
    obtain ⟨hfind, hset⟩ := lowBits_succ m hm
    obtain ⟨u, hu, hucur, huids⟩ := construct_byte hfind htids (by omega) htcur
    refine ⟨u, ?_, hucur, hset ▸ huids⟩
    rw [List.replicate_succ', exec_append, ht, Option.bind_some]
    exact exec_cons_eq_some.mpr ⟨u, hu, rfl⟩

theorem construct_full {k : ℕ} (hk : k ≤ initIdSize) : ∃ t, exec lifeStep .start (List.replicate (k * 8) .construct) = some t ∧
    t.ids = fullUpTo k ∧ t.curTimers = 0 := by
  induction k with
  | zero => exact ⟨.start, rfl, rfl, rfl⟩
  | succ k ih =>
    obtain ⟨s, hs, hids, hcur⟩ := ih (Nat.le_of_succ_le hk)
    obtain ⟨t, ht, htcur, htids⟩ := construct_bits hk le_rfl hids hcur
    refine ⟨t, ?_, ?_, htcur⟩
    · rw [Nat.succ_mul, ← List.replicate_append_replicate, exec_append, hs, Option.bind_some]
      exact ht
    · rw [htids, fullUpTo, List.replicate_succ', List.append_assoc]
      rfl

/-- 1025 timers that nobody registers: the last one has the id 0. -/
theorem not_ids_never_run_out :
    ¬ ∀ ops s, exec lifeStep .start ops = some s → ∀ t ∈ s.timers, t.2.id ≠ 0 := by
  intro hall
  obtain ⟨s, hs, hids, hcur⟩ := construct_full (le_refl initIdSize)
  have hfull : (createTimerID (fullUpTo initIdSize) 0).1 = 0 := by decide +kernel
  have hstep : ∃ t, lifeStep s .construct = some t ∧ (s.fresh, newHeld s.ids s.curTimers) ∈ t.timers :=
    ⟨_, rfl, List.mem_cons_self⟩
  obtain ⟨t, ht, hmem⟩ := hstep
  have hrun : exec lifeStep .start (List.replicate (initIdSize * 8) .construct ++ [.construct]) = some t := by
    rw [exec_append, hs, Option.bind_some]
    exact exec_cons_eq_some.mpr ⟨t, ht, rfl⟩
  have hzero : (createTimerID s.ids s.curTimers).1 = 0 := by
    rw [hids, hcur]
    exact hfull
  exact hall _ t hrun _ hmem hzero

end Chaos.TimerIds
