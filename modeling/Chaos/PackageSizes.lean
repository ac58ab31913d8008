import Chaos.Package

/-!
# The space that packing and unpacking need

`package/Package.h` promises that a call returns more than `pkgSize` where the space at `pkg` is too small.
`Pack` stores the header before it tests the space, and `Unpack` tests the space for the body but
returns the size of the packet.
-/
namespace Chaos.Package

open ByteMemory Word32

/-- The offsets of `pkg` that `Pack` stores to. -/
def packWrites (msgSize pkgSize : ℕ) : List ℕ :=
  List.range headSize ++
    if pkgSize < add32 msgSize headSize then [] else List.range' headSize msgSize

/-- The offsets of `pkg` that `Unpack` stores to. -/
def unpackWrites (msg : Block) (pkgSize : ℕ) : List ℕ :=
  if pkgSize < bodySize msg then [] else List.range (bodySize msg)

/-! ### The offsets are those that a call stores to -/

section Writes
variable {msg pkg pkg' : Block} {msgSize pkgSize i : ℕ}

theorem mem_packWrites :
    i ∈ packWrites msgSize pkgSize ↔
      i < headSize ∨ (add32 msgSize headSize ≤ pkgSize ∧ headSize ≤ i ∧ i < headSize + msgSize) := by
  rw [packWrites, List.mem_append, List.mem_range]
  split_ifs with h
  · simp [Nat.not_le.mpr h]
  · simp [Nat.not_lt.mp h]

theorem mem_unpackWrites : i ∈ unpackWrites msg pkgSize ↔ bodySize msg ≤ pkgSize ∧ i < bodySize msg := by
  rw [unpackWrites]
  split_ifs with h
  · simp [Nat.not_le.mpr h]
  · simp [Nat.not_lt.mp h]

/-- A byte outside them stays. -/
theorem pack_of_not_mem (h : i ∉ packWrites msgSize pkgSize) :
    (pack (some msg) msgSize (some pkg) pkgSize).2.map (· i) = some (pkg i) := by
  rw [mem_packWrites] at h
  have hhead : store pkg 0 (packHead msgSize) i = pkg i := store_outside (.inr (by
    simp only [packHead, List.length_cons, List.length_nil, headSize] at h ⊢; omega))
  simp only [pack]
  split_ifs with hspace
  · simp [hhead]
  · rw [Option.map_some, store_outside (by rw [length_load]; omega), hhead]

/-- A byte at one of them does not depend on the old one. -/
theorem pack_of_mem (h : i ∈ packWrites msgSize pkgSize) :
    (pack (some msg) msgSize (some pkg) pkgSize).2.map (· i) =
      (pack (some msg) msgSize (some pkg') pkgSize).2.map (· i) := by
  rw [mem_packWrites] at h
  have hhead (hi : i < headSize) :
      store pkg 0 (packHead msgSize) i = store pkg' 0 (packHead msgSize) i :=
    store_inside _ _ (Nat.zero_le i) (by simpa [packHead, headSize] using hi)
  simp only [pack]
  split_ifs with hspace
  · simp [hhead (by omega)]
  · simp only [Option.map_some, Option.some.injEq]
    rcases h with h | ⟨-, hle, hlt⟩
    · rw [store_lt _ h, store_lt _ h, hhead h]
    · exact store_inside _ _ hle (by rw [length_load]; exact hlt)

theorem unpack_of_not_mem (h : i ∉ unpackWrites msg pkgSize) :
    (unpack (some msg) msgSize (some pkg) pkgSize).pkg.map (· i) = some (pkg i) := by
  rw [mem_unpackWrites] at h
  simp only [unpack]
  split_ifs with hspace
  · rfl
  · rw [Option.map_some, store_outside (by rw [length_load]; omega)]

theorem unpack_of_mem (h : i ∈ unpackWrites msg pkgSize) :
    (unpack (some msg) msgSize (some pkg) pkgSize).pkg.map (· i) =
      (unpack (some msg) msgSize (some pkg') pkgSize).pkg.map (· i) := by
  rw [mem_unpackWrites] at h
  simp only [unpack]
  rw [if_neg (by omega), if_neg (by omega), Option.map_some, Option.map_some,
    store_inside pkg pkg' (Nat.zero_le i) (by rw [length_load]; omega)]

end Writes

/-! ### The contract -/

/-- What a call owes to the `pkgSize` bytes at `pkg`, where `need` bytes are to be held there and `size` is
the size of the packet. -/
structure Sized (pkgSize need size : ℕ) (Whole : Block → Prop) (pkg : Block) (writes : List ℕ) (ret : ℕ)
    (pkg' : Option Block) : Prop where
  within : ∀ i ∈ writes, i < pkgSize
  tells : pkgSize < ret ↔ pkgSize < need
  refused : pkgSize < need → pkg' = some pkg
  done : need ≤ pkgSize → ret = size ∧ ∃ mem ∈ pkg', Whole mem

/-- A packet lies at `pkg`: the header announces the body that follows it. -/
def HoldsPacket (body : List UInt8) (pkg : Block) : Prop :=
  bodySize pkg = body.length ∧ load pkg headSize body.length = body

def PackSized (msg : Block) (msgSize : ℕ) (pkg : Block) (pkgSize : ℕ) : Prop :=
  Sized pkgSize (msgSize + headSize) (msgSize + headSize) (HoldsPacket (load msg 0 msgSize)) pkg
    (packWrites msgSize pkgSize) (pack (some msg) msgSize (some pkg) pkgSize).1
    (pack (some msg) msgSize (some pkg) pkgSize).2

def UnpackSized (msg : Block) (msgSize : ℕ) (pkg : Block) (pkgSize : ℕ) : Prop :=
  Sized pkgSize (bodySize msg) (bodySize msg + headSize)
    (fun mem => load mem 0 (bodySize msg) = load msg headSize (bodySize msg)) pkg
    (unpackWrites msg pkgSize) (unpack (some msg) msgSize (some pkg) pkgSize).ret
    (unpack (some msg) msgSize (some pkg) pkgSize).pkg

section Contract
variable {msg pkg : Block} {msgSize pkgSize : ℕ}

/-- The header changes nothing where `pkg` begins with it already. -/
theorem store_packHead_eq_iff : store pkg 0 (packHead msgSize) = pkg ↔ bodySize pkg = msgSize % 65536 := by
  constructor
  · intro h
    rw [← bodySize_packHead pkg msgSize, h]
  · intro h
    funext i
    have h₀ := (pkg 0).toNat_lt
    have h₁ := (pkg 1).toNat_lt
    rw [bodySize] at h
    rcases i with _ | _ | i
    · apply UInt8.toNat_inj.mp
      change (UInt8.ofNat msgSize).toNat = (pkg 0).toNat
      rw [UInt8.toNat_ofNat']
      omega
    · apply UInt8.toNat_inj.mp
      change (UInt8.ofNat (msgSize / 256)).toNat = (pkg 1).toNat
      rw [UInt8.toNat_ofNat']
      omega
    · exact store_outside (.inr (by simp [packHead]))

/-- The header is stored first, so `Pack` stays in the space only where the space has room for a
header, and where the sum does not wrap to a size that the test lets through. -/
theorem packWrites_within_iff :
    (∀ i ∈ packWrites msgSize pkgSize, i < pkgSize) ↔
      headSize ≤ pkgSize ∧ (add32 msgSize headSize ≤ pkgSize → msgSize + headSize ≤ pkgSize) := by
  simp only [mem_packWrites]
  constructor
  · intro h
    have hhead : headSize ≤ pkgSize := h 1 (.inl (by decide))
    refine ⟨hhead, fun hspace => ?_⟩
    rcases Nat.eq_zero_or_pos msgSize with rfl | hpos
    · simpa using hhead
    · have hlast := h (msgSize + headSize - 1) (.inr ⟨hspace, by omega, by omega⟩)
      omega
  · rintro ⟨hhead, hbody⟩ i (hi | ⟨hspace, -, hi⟩)
    · omega
    · have := hbody hspace
      omega

theorem holdsPacket_pack (hsize : msgSize + headSize ≤ pkgSize) (hlt : msgSize + headSize < word32)
    (hhead : msgSize < 65536) :
    ∃ mem ∈ (pack (some msg) msgSize (some pkg) pkgSize).2, HoldsPacket (load msg 0 msgSize) mem := by
  simp only [pack, add32_of_lt hlt]
  rw [if_neg (by omega)]
  refine ⟨_, rfl, ?_, load_store_self _ _ _⟩
  have hkeep : bodySize (store (store pkg 0 (packHead msgSize)) headSize (load msg 0 msgSize)) =
      bodySize (store pkg 0 (packHead msgSize)) := bodySize_congr fun i hi => store_lt _ hi
  rw [hkeep, bodySize_packHead, length_load, Nat.mod_eq_of_lt hhead]

theorem pack_refused (hsize : pkgSize < msgSize + headSize) (hlt : msgSize + headSize < word32) :
    (pack (some msg) msgSize (some pkg) pkgSize).2 = some (store pkg 0 (packHead msgSize)) := by
  simp only [pack, add32_of_lt hlt]
  rw [if_pos hsize]

/-- A sum that wraps is 0 or 1, which a space with room for a header always meets. -/
theorem no_wrap_of_within (hmsg : msgSize < word32) (hpkg : pkgSize < word32)
    (h : ∀ i ∈ packWrites msgSize pkgSize, i < pkgSize) : msgSize + headSize < word32 := by
  obtain ⟨hhead, hbody⟩ := packWrites_within_iff.mp h
  by_contra hwrap
  have hsum : add32 msgSize headSize = msgSize + headSize - word32 := by
    simp only [add32, headSize, word32] at *
    omega
  have hle : add32 msgSize headSize ≤ pkgSize := by
    simp only [hsum, headSize, word32] at *
    omega
  have := hbody hle
  omega

theorem pack_sized_iff (hmsg : msgSize < word32) (hpkg : pkgSize < word32) :
    PackSized msg msgSize pkg pkgSize ↔
      headSize ≤ pkgSize ∧ msgSize + headSize < word32 ∧
        if msgSize + headSize ≤ pkgSize then msgSize < 65536 else bodySize pkg = msgSize % 65536 := by
  constructor
  · intro h
    have hlt := no_wrap_of_within hmsg hpkg h.within
    refine ⟨(packWrites_within_iff.mp h.within).1, hlt, ?_⟩
    split_ifs with hsize
    · obtain ⟨-, mem, -, hbody, -⟩ := h.done hsize
      have := bodySize_lt mem
      rw [hbody, length_load] at this
      exact this
    · have hsame := h.refused (not_le.mp hsize)
      rw [pack_refused (not_le.mp hsize) hlt, Option.some.injEq] at hsame
      exact store_packHead_eq_iff.mp hsame
  · rintro ⟨hhead, hlt, hcase⟩
    have hret : (pack (some msg) msgSize (some pkg) pkgSize).1 = msgSize + headSize := by
      rw [pack_ret, add32_of_lt hlt]
    constructor
    · apply packWrites_within_iff.mpr
      rw [add32_of_lt hlt]
      exact ⟨hhead, id⟩
    · rw [hret]
    · intro hsize
      rw [if_neg (not_le.mpr hsize)] at hcase
      rw [pack_refused hsize hlt, store_packHead_eq_iff.mpr hcase]
    · intro hsize
      rw [if_pos hsize] at hcase
      exact ⟨hret, holdsPacket_pack hsize hlt hcase⟩

theorem unpack_sized_iff :
    UnpackSized msg msgSize pkg pkgSize ↔ pkgSize < bodySize msg ∨ bodySize msg + headSize ≤ pkgSize := by
  constructor
  · intro h
    by_cases hsize : pkgSize < bodySize msg
    · exact .inl hsize
    · apply Or.inr
      have htells := h.tells
      rw [(h.done (not_lt.mp hsize)).1] at htells
      omega
  · intro h
    constructor
    · intro i hi
      rw [mem_unpackWrites] at hi
      omega
    · simp only [unpack]
      split_ifs with hsize
      · rfl
      · exact iff_of_false (by simp only; omega) hsize
    · intro hsize
      simp only [unpack, if_pos hsize]
    · intro hsize
      simp only [unpack, if_neg (not_lt.mpr hsize)]
      refine ⟨trivial, _, rfl, ?_⟩
      have hself := load_store_self pkg 0 (load msg headSize (bodySize msg))
      rw [length_load] at hself
      exact hself

/-- The two calls keep the contract exactly under these conditions. `Pack` needs room for a header, a sum
that does not wrap, and, where it refuses, a header that `pkg` has already; `Unpack` must not have
between the size of the body and the size of the packet. -/
theorem sizes_honoured_iff (hmsg : msgSize < word32) (hpkg : pkgSize < word32) :
    (PackSized msg msgSize pkg pkgSize ↔
      headSize ≤ pkgSize ∧ msgSize + headSize < word32 ∧
        if msgSize + headSize ≤ pkgSize then msgSize < 65536 else bodySize pkg = msgSize % 65536) ∧
    (UnpackSized msg msgSize pkg pkgSize ↔ pkgSize < bodySize msg ∨ bodySize msg + headSize ≤ pkgSize) :=
  ⟨pack_sized_iff hmsg hpkg, unpack_sized_iff⟩

end Contract

/-- A packet with a body of five bytes. -/
def greeting : Block := fun i => ([5, 0, 104, 101, 108, 108, 111][i]?).getD 0

def blank : Block := fun _ => 0

theorem sizes_honoured_sample :
    PackSized greeting 7 blank 9 ∧ ¬ PackSized greeting 7 blank 8 ∧
      UnpackSized greeting 7 blank 4 ∧ ¬ UnpackSized greeting 7 blank 6 ∧ UnpackSized greeting 7 blank 7 :=
  ⟨(sizes_honoured_iff (by decide) (by decide)).1.mpr (by decide),
    fun h => absurd ((sizes_honoured_iff (by decide) (by decide)).1.mp h) (by decide),
    (sizes_honoured_iff (by decide) (by decide)).2.mpr (by decide),
    fun h => absurd ((sizes_honoured_iff (by decide) (by decide)).2.mp h) (by decide),
    (sizes_honoured_iff (by decide) (by decide)).2.mpr (by decide)⟩

/-- `Pack` stores the second byte of the header past a space of one byte, and `Unpack` copies a body
of five bytes to a space of five bytes and returns 7. -/
theorem not_sizes_honoured :
    ¬ PackSized greeting 7 blank 1 ∧ bodySize greeting + headSize ≤ 7 ∧ ¬ UnpackSized greeting 7 blank 5 := by
  refine ⟨fun h => ?_, by decide, fun h => ?_⟩
  · exact absurd (h.within 1 (by decide)) (by decide)
  · exact absurd (h.tells.mp (by decide)) (by decide)

end Chaos.Package
