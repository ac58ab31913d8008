import Chaos.GuardedRuns
import Chaos.Word32
import Mathlib.Data.List.Nodup
import Mathlib.Data.List.GetD

/-!
# The timer ids

`Timer::CreateTimerID` and `Timer::ReleaseTimerID` of `net/Timer.cpp`, over the bit functions of
`common.h`. Creation takes bit `bit` of byte `pos` to the id `pos * 8 + bit + 1`; the release divides
the id itself, so an id that is a multiple of 8 is looked up one byte too far.
-/
namespace Chaos.TimerIds

open Word32 GuardedRuns

def setBit (des : BitVec 8) (bit : ℕ) : BitVec 8 := des ||| (1#8 <<< bit)

def clrBit (des : BitVec 8) (bit : ℕ) : BitVec 8 := des &&& ~~~(1#8 <<< bit)

def getBit (des : BitVec 8) (bit : ℕ) : Bool := des &&& (1#8 <<< bit) != 0#8

def byte2bit : ℕ := 8

def initIdSize : ℕ := 128

/-- `s_ids` before any timer. -/
def initIds : List (BitVec 8) := List.replicate initIdSize 0#8

/-- The first clear bit among the `n` bits from `bit` on. -/
def scanByte (idBytes : BitVec 8) : ℕ → ℕ → Option ℕ
  | 0, _ => none
  | n + 1, bit => if getBit idBytes bit then scanByte idBytes n (bit + 1) else some bit

/-- The first byte with a clear bit, and that bit. -/
def scanIds : List (BitVec 8) → ℕ → Option (ℕ × ℕ)
  | [], _ => none
  | idBytes :: ids, i => match scanByte idBytes byte2bit 0 with
    | some bit => some (i, bit)
    | none => scanIds ids (i + 1)

/-- `s_ids` after the check of its size against `s_curTimers`. -/
def growIds (ids : List (BitVec 8)) (curTimers : ℕ) : List (BitVec 8) :=
  if curTimers ≥ ids.length * byte2bit then ids ++ [0#8] else ids

/-- The bit `CreateTimerID` finds clear; `max` is the size in 32 bits. -/
def freeBit (ids : List (BitVec 8)) : Option (ℕ × ℕ) := scanIds (ids.take (ids.length % word32)) 0

def idOf (pos bit : ℕ) : ℕ := add32 (pos * byte2bit) (bit + 1)

/-- `CreateTimerID`: the id, 0 when no bit is clear, and the bytes after it. -/
def createTimerID (ids : List (BitVec 8)) (curTimers : ℕ) : ℕ × List (BitVec 8) :=
  let ids := growIds ids curTimers
  match freeBit ids with
  | none => (0, ids)
  | some (pos, bit) => (idOf pos bit, ids.set pos (setBit (ids.getD pos 0#8) bit))

/-- `s_ids` with one bit cleared. -/
def clearAt (ids : List (BitVec 8)) (pos bit : ℕ) : List (BitVec 8) :=
  ids.set pos (clrBit (ids.getD pos 0#8) bit)

def releaseTimerID (ids : List (BitVec 8)) (id : ℕ) : List (BitVec 8) :=
  if id = 0 then ids
  else
    let pos := id / byte2bit
    let bit := id % byte2bit
    if pos ≥ ids.length then ids
    else if bit = 0 then clearAt ids pos (byte2bit - 1)
    else clearAt ids pos (bit - 1)

/-- An id in use, with the bit its creation set. -/
structure HeldId where
  id : ℕ
  pos : ℕ
  bit : ℕ
  deriving DecidableEq, Repr

structure IdRun where
  ids : List (BitVec 8)
  held : List HeldId

inductive IdOp where
  | create (curTimers : ℕ)
  | release (h : HeldId)

def IdRun.start : IdRun := ⟨initIds, []⟩

/-- A creation reads any value of the shared counter `s_curTimers`; only ids in use are released. -/
def idStep (s : IdRun) : IdOp → Option IdRun
  | .create curTimers =>
    if curTimers < word32 then
      let (id, ids) := createTimerID s.ids curTimers
      some ⟨ids, match freeBit (growIds s.ids curTimers) with
        | some (pos, bit) => if id ≠ 0 then ⟨id, pos, bit⟩ :: s.held else s.held
        | none => s.held⟩
    else none
  | .release h =>
    if h ∈ s.held then some ⟨releaseTimerID s.ids h.id, s.held.erase h⟩ else none

/-- No id that is a multiple of 8 is released. -/
def idOk (_ : IdRun) : IdOp → Prop
  | .create _ => True
  | .release h => h.id % byte2bit ≠ 0

instance (s : IdRun) (op : IdOp) : Decidable (idOk s op) := by
  cases op <;> (dsimp only [idOk]; infer_instance)

/-! ## Bits -/

theorem getBit_eq (des : BitVec 8) {bit : ℕ} (h : bit < 8) : getBit des bit = des.getLsbD bit := by
  have hne : BitVec.twoPow 8 bit ≠ 0#8 := by
    intro hz
    have hb := BitVec.getLsbD_twoPow (w := 8) bit bit
    simp [hz, h] at hb
  rw [getBit, ← BitVec.twoPow_eq, BitVec.and_twoPow]
  cases des.getLsbD bit <;> simp [hne]

theorem getBit_setBit (des : BitVec 8) {i j : ℕ} (hj : j < 8) :
    getBit (setBit des i) j = (getBit des j || decide (i = j)) := by
  rw [getBit_eq _ hj, getBit_eq _ hj, setBit, ← BitVec.twoPow_eq, BitVec.getLsbD_or,
    BitVec.getLsbD_twoPow]
  rcases eq_or_ne i j with rfl | hij
  · simp [hj]
  · simp [hij]

theorem getBit_clrBit (des : BitVec 8) {i j : ℕ} (hj : j < 8) :
    getBit (clrBit des i) j = (getBit des j && decide (i ≠ j)) := by
  rw [getBit_eq _ hj, getBit_eq _ hj, clrBit, ← BitVec.twoPow_eq, BitVec.getLsbD_and,
    BitVec.getLsbD_not, BitVec.getLsbD_twoPow]
  rcases eq_or_ne i j with rfl | hij
  · simp [hj]
  · simp [hij, hj]

/-- The bit of the whole bitmap at a byte and a place in it. -/
def bitAt (ids : List (BitVec 8)) (pos bit : ℕ) : Bool := getBit (ids.getD pos 0#8) bit

section Bitmap
variable {ids : List (BitVec 8)} {pos bit p b : ℕ}

theorem bitAt_set (byte : BitVec 8) (hpos : pos < ids.length) :
    bitAt (ids.set pos byte) p b = if pos = p then getBit byte b else bitAt ids p b := by
  simp only [bitAt, List.getD_eq_getElem?_getD, List.getElem?_set]
  split_ifs with h
  · rfl
  · rfl

theorem bitAt_setBit (hpos : pos < ids.length) (hb : b < 8) :
    bitAt (ids.set pos (setBit (ids.getD pos 0#8) bit)) p b =
      (bitAt ids p b || decide (pos = p ∧ bit = b)) := by
  rw [bitAt_set _ hpos]
  split_ifs with h
  · subst h
    simp [getBit_setBit _ hb, bitAt]
  · simp [h]

theorem bitAt_clearAt (hpos : pos < ids.length) (hb : b < 8) :
    bitAt (clearAt ids pos bit) p b = (bitAt ids p b && decide (¬ (pos = p ∧ bit = b))) := by
  rw [clearAt, bitAt_set _ hpos]
  split_ifs with h
  · subst h
    simp [getBit_clrBit _ hb, bitAt]
  · simp [h]

/-- Growing the vector sets no bit. -/
theorem bitAt_growIds (curTimers : ℕ) : bitAt (growIds ids curTimers) p b = bitAt ids p b := by
  rw [growIds]
  split_ifs with h
  · rcases Nat.lt_trichotomy p ids.length with hp | rfl | hp
    · simp [bitAt, List.getElem?_append_left hp]
    · simp [bitAt]
    · simp [bitAt, List.getElem?_append_right hp.le, List.getElem?_eq_none hp.le,
        Nat.sub_ne_zero_of_lt hp]
  · rfl

end Bitmap

/-! ## The search for a clear bit -/

theorem scanByte_eq_some {idBytes : BitVec 8} {n bit k : ℕ} (h : scanByte idBytes n bit = some k) :
    k < bit + n ∧ getBit idBytes k = false := by
  induction n generalizing bit with
  | zero => simp [scanByte] at h
  | succ n ih =>
    simp only [scanByte] at h
    split_ifs at h with hb
    · obtain ⟨hk, hclear⟩ := ih h
      exact ⟨by omega, hclear⟩
    · cases Option.some.inj h
      exact ⟨by omega, by simpa using hb⟩

theorem scanIds_eq_some {ids : List (BitVec 8)} {i pos bit : ℕ} (h : scanIds ids i = some (pos, bit)) :
    i ≤ pos ∧ pos < i + ids.length ∧ bit < 8 ∧ bitAt ids (pos - i) bit = false := by
  induction ids generalizing i with
  | nil => simp [scanIds] at h
  | cons idBytes ids ih =>
    simp only [scanIds] at h
    cases hb : scanByte idBytes byte2bit 0 with
    | some k =>
      simp only [hb, Option.some.injEq, Prod.mk.injEq] at h
      obtain ⟨rfl, rfl⟩ := h
      obtain ⟨hk, hclear⟩ := scanByte_eq_some hb
      refine ⟨Nat.le_refl i, by simp, by simpa [byte2bit] using hk, ?_⟩
      simpa [bitAt] using hclear
    | none =>
      simp only [hb] at h
      obtain ⟨hle, hlt, hbit, hclear⟩ := ih h
      refine ⟨by omega, by simp only [List.length_cons]; omega, hbit, ?_⟩
      rw [show pos - i = pos - (i + 1) + 1 by omega]
      simpa [bitAt] using hclear

/-- The search stops no later than at a clear bit. -/
theorem scanByte_le {idBytes : BitVec 8} {n bit k : ℕ} (hk : getBit idBytes k = false) (hle : bit ≤ k)
    (hlt : k < bit + n) : ∃ b ≤ k, scanByte idBytes n bit = some b := by
  induction n generalizing bit with
  | zero => omega
  | succ n ih =>
    rw [scanByte]
    split_ifs with hb
    · have hne : bit ≠ k := by
        rintro rfl
        rw [hk] at hb
        cases hb
      exact ih (by omega) (by omega)
    · exact ⟨bit, hle, rfl⟩

theorem scanIds_le {ids : List (BitVec 8)} {pos bit : ℕ} (i : ℕ) (hpos : pos < ids.length) (hbit : bit < 8)
    (hclear : bitAt ids pos bit = false) :
    ∃ p b, scanIds ids i = some (p, b) ∧ p * 8 + b ≤ (i + pos) * 8 + bit := by
  induction ids generalizing i pos with
  | nil => cases hpos
  | cons idBytes ids ih =>
    rw [scanIds]
    cases pos with
    | zero =>
      have hbyte : getBit idBytes bit = false := hclear
      obtain ⟨b, hle, hb⟩ := scanByte_le (n := byte2bit) hbyte (Nat.zero_le bit) (by rw [byte2bit]; omega)
      rw [hb]
      exact ⟨i, b, rfl, by omega⟩
    | succ pos =>
      cases hb : scanByte idBytes byte2bit 0 with
      | some b =>
        have hlt := (scanByte_eq_some hb).1
        rw [byte2bit] at hlt
        exact ⟨i, b, rfl, by omega⟩
      | none =>
        obtain ⟨p, b, hscan, hle⟩ := ih (i + 1) (Nat.lt_of_succ_lt_succ hpos) hclear
        exact ⟨p, b, hscan, by omega⟩

/-- What the ids in use rely on. -/
structure HeldOk (ids : List (BitVec 8)) (h : HeldId) : Prop where
  inside : h.pos < ids.length
  place : h.bit < 8
  taken : bitAt ids h.pos h.bit = true
  number : h.id = h.pos * 8 + h.bit + 1

structure IdInv (s : IdRun) : Prop where
  size : s.ids.length ≤ 536870912
  held : ∀ h ∈ s.held, HeldOk s.ids h
  distinct : (s.held.map HeldId.id).Nodup

theorem idInv_start : IdInv .start :=
  ⟨by simp [IdRun.start, initIds, initIdSize], by simp [IdRun.start], by simp [IdRun.start]⟩

/-- The vector stops growing where the ids of its bits would pass 32 bits. -/
theorem length_growIds {ids : List (BitVec 8)} {curTimers : ℕ} (hids : ids.length ≤ 536870912)
    (hcur : curTimers < word32) :
    ids.length ≤ (growIds ids curTimers).length ∧ (growIds ids curTimers).length ≤ 536870912 := by
  rw [growIds]
  split_ifs with h
  · rw [byte2bit] at h
    rw [word32] at hcur
    simp
    omega
  · exact ⟨Nat.le_refl _, hids⟩

theorem freeBit_eq_some {ids : List (BitVec 8)} {pos bit : ℕ} (hids : ids.length ≤ 536870912)
    (h : freeBit ids = some (pos, bit)) :
    pos < ids.length ∧ bit < 8 ∧ bitAt ids pos bit = false := by
  have hsize : ids.length % word32 = ids.length := Nat.mod_eq_of_lt (by unfold word32; omega)
  rw [freeBit, hsize, List.take_length] at h
  obtain ⟨_, hlt, hbit, hclear⟩ := scanIds_eq_some h
  exact ⟨by simpa using hlt, hbit, hclear⟩

/-- The bit of an id in use is found again by dividing what is one less. -/
theorem HeldOk.place_eq {ids : List (BitVec 8)} {h k : HeldId} (hh : HeldOk ids h)
    (hk : HeldOk ids k) (hid : h.id = k.id) : h.pos = k.pos ∧ h.bit = k.bit := by
  have h1 := hh.number
  have h2 := hk.number
  have h3 := hh.place
  have h4 := hk.place
  constructor <;> omega

/-- Off the multiples of 8 the release clears the bit the creation set. -/
theorem HeldOk.release {ids : List (BitVec 8)} {h : HeldId} (hh : HeldOk ids h)
    (hid : h.id % byte2bit ≠ 0) : releaseTimerID ids h.id = clearAt ids h.pos h.bit := by
  obtain ⟨hin, hbit, _, hnum⟩ := hh
  rw [byte2bit] at hid
  have hpos : h.id / 8 = h.pos := by omega
  have hmod : h.id % 8 = h.bit + 1 := by omega
  simp [releaseTimerID, byte2bit, hpos, hmod, Nat.not_le.mpr hin, show h.id ≠ 0 by omega]

/-- On them it leaves that bit set. -/
theorem HeldOk.release_multiple {ids : List (BitVec 8)} {h : HeldId} (hh : HeldOk ids h)
    (hid : h.id % byte2bit = 0) : bitAt (releaseTimerID ids h.id) h.pos h.bit = true := by
  obtain ⟨hin, hbit, htaken, hnum⟩ := hh
  rw [byte2bit] at hid
  have hpos : h.id / 8 = h.pos + 1 := by omega
  rw [releaseTimerID, if_neg (by omega)]
  dsimp only [byte2bit]
  rw [hpos]
  split_ifs with hend
  · exact htaken
  · rw [bitAt_clearAt (by omega) hbit, htaken]
    simp

theorem bitAt_cleared {ids : List (BitVec 8)} {h : HeldId} (hh : HeldOk ids h) :
    bitAt (clearAt ids h.pos h.bit) h.pos h.bit = false := by
  simp [bitAt_clearAt hh.inside hh.place]

/-- The release of an id in use clears exactly the bit its creation set off the multiples of 8. -/
theorem HeldOk.release_iff {ids : List (BitVec 8)} {h : HeldId} (hh : HeldOk ids h) :
    releaseTimerID ids h.id = clearAt ids h.pos h.bit ↔ h.id % byte2bit ≠ 0 := by
  constructor
  · intro heq hid
    have hset := hh.release_multiple hid
    rw [heq, bitAt_cleared hh] at hset
    exact Bool.false_ne_true hset
  · exact hh.release

/-- An id in use keeps its bit while the bitmap only gains bits. -/
theorem HeldOk.mono {ids ids' : List (BitVec 8)} {h : HeldId} (hh : HeldOk ids h)
    (hlen : ids.length ≤ ids'.length)
    (hbits : bitAt ids h.pos h.bit = true → bitAt ids' h.pos h.bit = true) : HeldOk ids' h :=
  ⟨hh.inside.trans_le hlen, hh.place, hbits hh.taken, hh.number⟩

/-! ## What a creation and a release keep -/

section Steps
variable {ids : List (BitVec 8)} {curTimers pos bit : ℕ} {h k : HeldId}

theorem length_createTimerID (hids : ids.length ≤ 536870912) (hcur : curTimers < word32) :
    ids.length ≤ (createTimerID ids curTimers).2.length ∧ (createTimerID ids curTimers).2.length ≤ 536870912 := by
  rw [createTimerID]
  cases freeBit (growIds ids curTimers) with
  | none => exact length_growIds hids hcur
  | some found =>
    dsimp only
    rw [List.length_set]
    exact length_growIds hids hcur

/-- A creation leaves the ids in use alone. -/
theorem HeldOk.create (hk : HeldOk ids k) (hids : ids.length ≤ 536870912) (hcur : curTimers < word32) :
    HeldOk (createTimerID ids curTimers).2 k := by
  refine hk.mono (length_createTimerID hids hcur).1 fun htaken => ?_
  rw [createTimerID]
  cases hfree : freeBit (growIds ids curTimers) with
  | none =>
    dsimp only
    rw [bitAt_growIds]
    exact htaken
  | some found =>
    obtain ⟨hpos, hbit, hclear⟩ := freeBit_eq_some (length_growIds hids hcur).2 hfree
    dsimp only
    rw [bitAt_setBit hpos hk.place, bitAt_growIds, htaken]
    rfl

/-- The id that a creation gives out is in use then, and was not. -/
theorem heldOk_new (hids : ids.length ≤ 536870912) (hcur : curTimers < word32)
    (hfree : freeBit (growIds ids curTimers) = some (pos, bit)) (hid : (createTimerID ids curTimers).1 ≠ 0) :
    HeldOk (createTimerID ids curTimers).2 ⟨(createTimerID ids curTimers).1, pos, bit⟩ ∧
      ∀ k, HeldOk ids k → k.id ≠ (createTimerID ids curTimers).1 := by
  have hsize := (length_growIds hids hcur).2
  obtain ⟨hpos, hbit, hclear⟩ := freeBit_eq_some hsize hfree
  have hcreate : createTimerID ids curTimers = (idOf pos bit, (growIds ids curTimers).set pos
      (setBit ((growIds ids curTimers).getD pos 0#8) bit)) := by
    rw [createTimerID, hfree]
  rw [hcreate] at hid ⊢
  have hnum : idOf pos bit = pos * 8 + bit + 1 := by
    rw [idOf, add32, byte2bit, word32] at *
    omega
  have hnew : HeldOk ((growIds ids curTimers).set pos (setBit ((growIds ids curTimers).getD pos 0#8) bit))
      ⟨idOf pos bit, pos, bit⟩ := by
    refine ⟨by rw [List.length_set]; exact hpos, hbit, ?_, hnum⟩
    rw [bitAt_setBit hpos hbit]
    simp
  refine ⟨hnew, fun k hk hkid => ?_⟩
  have hkept : HeldOk (createTimerID ids curTimers).2 k := hk.create hids hcur
  rw [hcreate] at hkept
  obtain ⟨hp, hb⟩ := hkept.place_eq hnew hkid
  have htaken := hk.taken
  rw [hp, hb, ← bitAt_growIds curTimers, hclear] at htaken
  exact Bool.false_ne_true htaken

theorem length_releaseTimerID (ids : List (BitVec 8)) (id : ℕ) : (releaseTimerID ids id).length = ids.length := by
  rw [releaseTimerID]
  dsimp only
  split_ifs <;> simp [clearAt]

/-- A release keeps the other ids in use, but the one that is 8 more than a multiple of 8. -/
theorem HeldOk.keep (hk : HeldOk ids k) (hh : HeldOk ids h) (hne : k.id ≠ h.id)
    (hok : h.id % byte2bit = 0 → k.id ≠ h.id + 8) : HeldOk (releaseTimerID ids h.id) k := by
  obtain ⟨hin, hbit, htaken, hnum⟩ := hh
  have hknum := hk.number
  have hkbit := hk.place
  rw [releaseTimerID, if_neg (by omega)]
  dsimp only [byte2bit] at hok ⊢
  split_ifs with hend hzero
  · exact hk
  all_goals
    refine hk.mono (by simp [clearAt]) fun hset => ?_
    rw [bitAt_clearAt (Nat.lt_of_not_le hend) hkbit, hset, decide_eq_true (by omega)]
    rfl

end Steps

theorem idInv_create {s t : IdRun} {curTimers : ℕ} (h : IdInv s)
    (ht : idStep s (.create curTimers) = some t) : IdInv t := by
  simp only [idStep, Option.ite_none_right_eq_some, Option.some.injEq] at ht
  obtain ⟨hcur, rfl⟩ := ht
  have hsize := (length_createTimerID h.size hcur).2
  have hold : ∀ k ∈ s.held, HeldOk (createTimerID s.ids curTimers).2 k :=
    fun k hk => (h.held k hk).create h.size hcur
  cases hfree : freeBit (growIds s.ids curTimers) with
  | none => exact ⟨hsize, hold, h.distinct⟩
  | some found =>
    obtain ⟨pos, bit⟩ := found
    dsimp only
    split_ifs with hid
    · obtain ⟨hnew, hother⟩ := heldOk_new h.size hcur hfree hid
      refine ⟨hsize, List.forall_mem_cons.mpr ⟨hnew, hold⟩, List.nodup_cons.mpr ⟨?_, h.distinct⟩⟩
      intro hmem
      obtain ⟨k, hk, hkid⟩ := List.mem_map.mp hmem
      exact hother k (h.held k hk) hkid
    · exact ⟨hsize, hold, h.distinct⟩

theorem idInv_release {s t : IdRun} {k : HeldId} (h : IdInv s) (hok : idOk s (.release k))
    (ht : idStep s (.release k) = some t) : IdInv t := by
  simp only [idStep, Option.ite_none_right_eq_some, Option.some.injEq] at ht
  obtain ⟨hk, rfl⟩ := ht
  have hkeep := h.held k hk
  have hnodup : s.held.Nodup := h.distinct.of_map
  refine ⟨?_, ?_, ?_⟩
  · rw [hkeep.release hok]
    simpa [clearAt] using h.size
  · intro m hm
    obtain ⟨hne, hmem⟩ := hnodup.mem_erase_iff.mp hm
    refine (h.held m hmem).keep hkeep ?_ fun hzero => absurd hzero hok
    intro hid
    exact hne (List.inj_on_of_nodup_map h.distinct hmem hk hid)
  · exact h.distinct.sublist ((List.erase_sublist).map _)

theorem idInv_step {s t : IdRun} {op : IdOp} (h : IdInv s) (hok : idOk s op)
    (ht : idStep s op = some t) : IdInv t := by
  cases op with
  | create curTimers => exact idInv_create h ht
  | release k => exact idInv_release h hok ht

/-- In a run that releases no multiple of 8 the ids in use are distinct, and whether the release of
one of them clears exactly its own bit depends on nothing else. -/
theorem ids_distinct {ops : List IdOp} {s : IdRun} (hg : Guarded idStep idOk .start ops)
    (hs : exec idStep .start ops = some s) :
    (s.held.map HeldId.id).Nodup ∧ (∀ h ∈ s.held, h.id ≠ 0) ∧
      ∀ h ∈ s.held, releaseTimerID s.ids h.id = clearAt s.ids h.pos h.bit ↔ h.id % byte2bit ≠ 0 := by
  have hinv : IdInv s := invariant_of_guarded (fun _ _ _ => idInv_step) idInv_start hg hs
  refine ⟨hinv.distinct, ?_, fun h hh => (hinv.held h hh).release_iff⟩
  intro h hh
  rw [(hinv.held h hh).number]
  omega

/-- Nine creations, the release of the first id, and a creation that takes it again. -/
def idSample : List IdOp :=
  List.replicate 9 (.create 0) ++ [.release ⟨1, 0, 0⟩, .create 0, .release ⟨9, 1, 0⟩]

def idSampleEnd : IdRun := (exec idStep .start idSample).get (by decide +kernel)

theorem ids_distinct_sample :
    (idSampleEnd.held.map HeldId.id).Nodup ∧ (∀ h ∈ idSampleEnd.held, h.id ≠ 0) ∧
      ∀ h ∈ idSampleEnd.held, releaseTimerID idSampleEnd.ids h.id =
        clearAt idSampleEnd.ids h.pos h.bit ↔ h.id % byte2bit ≠ 0 :=
  ids_distinct (show Guarded idStep idOk .start idSample by decide +kernel) (Option.some_get _).symm

/-- Releasing id 8 frees the bit of id 16, which the next creation gives out again. -/
theorem ids_not_distinct :
    ¬ ∀ ops s, exec idStep .start ops = some s → (s.held.map HeldId.id).Nodup ∧
      ∀ h ∈ s.held, releaseTimerID s.ids h.id = clearAt s.ids h.pos h.bit := by
  intro h
  have hrun := h (List.replicate 16 (.create 0) ++ [.release ⟨8, 0, 7⟩, .create 0]) _
    (Option.some_get (by decide +kernel)).symm
  revert hrun
  decide +kernel

end Chaos.TimerIds
