import Chaos.Package

/-!
# Streams of packets

Packets put one behind the other and taken apart again, as the caller of `Unpack` does who goes on by
what it returns; and what `Unpack` reads of bytes that did not come from `Pack`.
-/
namespace Chaos.Package

open ByteMemory FrameStreams Word32

/-! ## Packing and unpacking a list of messages -/

/-- A call of `Pack` for the `msgSize` bytes at `msg`. -/
structure PackCall where
  msg : Block
  msgSize : ℕ
  pkg : Block
  pkgSize : ℕ

namespace PackCall

def message (c : PackCall) : List UInt8 := load c.msg 0 c.msgSize

def run (c : PackCall) : ℕ × Option Block := pack (some c.msg) c.msgSize (some c.pkg) c.pkgSize

/-- The answer says that the message was packed. -/
def Packed (c : PackCall) : Prop := c.msgSize < word32 ∧ 0 < c.run.1 ∧ c.run.1 ≤ c.pkgSize

instance (c : PackCall) : Decidable c.Packed := inferInstanceAs (Decidable (_ ∧ _ ∧ _))

/-- The packed bytes, as many as the answer says. -/
def bytes (c : PackCall) : List UInt8 := (c.run.2.map (load · 0 c.run.1)).getD []

end PackCall

/-- One call of `Unpack` at a position of the stream, into a block with any content. -/
def unpackAt (mem : Block) (total : ℕ) (dst : ℕ → Block) (dstSize pos : ℕ) : List UInt8 × ℕ :=
  let r := unpack (some fun i => mem (pos + i)) (total - pos) (some (dst pos)) dstSize
  ((r.pkg.map (load · 0 (r.ret - headSize))).getD [], r.ret)

/-- The messages of a stream, with anything in memory behind it. -/
def unpackAll (stream : List UInt8) (beyond : Block) (dst : ℕ → Block) (dstSize : ℕ) :
    Option (List (List UInt8)) :=
  decodeAll (unpackAt (store beyond 0 stream) stream.length dst dstSize) stream.length stream.length 0

theorem length_unpackAt (mem : Block) (total : ℕ) (dst : ℕ → Block) (dstSize pos : ℕ) :
    (unpackAt mem total dst dstSize pos).1.length < 65536 := by
  have hlt := bodySize_lt fun i => mem (pos + i)
  simp only [unpackAt, unpack]
  split_ifs
  · simp only [Option.map_some, Option.getD_some, length_load]
    omega
  · simp only [Option.map_some, Option.getD_some, length_load, Nat.add_sub_cancel]
    exact hlt

section Stream
variable {c : PackCall}

theorem PackCall.bytes_of_short (hc : c.Packed) (hlt : c.msgSize < 65536) :
    c.bytes = packet c.message := by
  obtain ⟨_, _, hsize⟩ := hc
  have hadd : c.run.1 = c.msgSize + headSize := by
    rw [run, pack_ret, add32_of_lt]
    rw [headSize, word32]
    omega
  rw [hadd] at hsize
  have hload := @load_pack c.msg c.pkg _ _ hsize (by unfold headSize word32; omega)
  rw [bytes, hadd]
  exact congrArg (·.getD []) hload

/-- The call at the place where a packet starts gives its message and goes on behind it. -/
theorem unpackAt_packet {beyond : Block} {xs ys msg : List UInt8} {dst : ℕ → Block} {total dstSize : ℕ}
    (hlt : msg.length < 65536) (hsize : msg.length ≤ dstSize) :
    unpackAt (store beyond 0 (xs ++ packet msg ++ ys)) total dst dstSize xs.length =
      (msg, (packet msg).length) := by
  have hmem := load_store_middle beyond 0 xs (packet msg) ys
  rw [Nat.zero_add, ← load_shift] at hmem
  obtain ⟨hret, hpkg⟩ := @unpack_packet _ (dst xs.length) _ _ (total - xs.length) hlt hmem hsize
  simp only [unpackAt, hret, Nat.add_sub_cancel, length_packet, hpkg, Option.getD_some]
  rw [Nat.add_comm]

/-- The positions of the packets in the stream are the sums of the lengths before them. -/
theorem unpackAt_between {beyond : Block} {before after : List PackCall} {dst : ℕ → Block}
    {total dstSize : ℕ} (hlt : c.message.length < 65536) (hsize : c.message.length ≤ dstSize) :
    unpackAt (store beyond 0 ((before ++ c :: after).flatMap fun c => packet c.message)) total dst dstSize
        ((before.map fun c => (c.message, (packet c.message).length)).map Prod.snd).sum =
      (c.message, (packet c.message).length) := by
  have hpos : ((before.map fun c => (c.message, (packet c.message).length)).map Prod.snd).sum =
      (before.flatMap fun c => packet c.message).length := by
    rw [List.length_flatMap, List.map_map]
    rfl
  rw [hpos, List.flatMap_append, List.flatMap_cons, ← List.append_assoc]
  exact unpackAt_packet hlt hsize

theorem length_le_sum_packets (calls : List PackCall) :
    calls.length ≤ (calls.map fun c => (packet c.message).length).sum := by
  induction calls with
  | nil => exact le_rfl
  | cons c calls ih =>
    simp only [List.length_cons, List.map_cons, List.sum_cons, length_packet, headSize] at ih ⊢
    omega

end Stream

/-- The stream of packed messages gives the messages back if and only if the `uint16` of the header can
announce each of them. -/
theorem unpackAll_packed {calls : List PackCall} {beyond : Block} {dst : ℕ → Block} {dstSize : ℕ}
    (hcalls : ∀ c ∈ calls, c.Packed) (hdst : ∀ c ∈ calls, c.msgSize ≤ dstSize) :
    unpackAll (calls.flatMap PackCall.bytes) beyond dst dstSize = some (calls.map PackCall.message) ↔
      ∀ c ∈ calls, c.msgSize < 65536 := by
  constructor
  · intro hall c hc
    obtain ⟨pos, hpos⟩ := mem_decodeAll hall (List.mem_map_of_mem hc)
    have hlen : c.message.length < 65536 := hpos ▸ length_unpackAt _ _ _ _ pos
    simpa [PackCall.message] using hlen
  · intro hlt
    have hstream : calls.flatMap PackCall.bytes = calls.flatMap fun c => packet c.message := by
      apply List.flatMap_congr
      intro c hc
      exact PackCall.bytes_of_short (hcalls c hc) (hlt c hc)
    have hframes : calls.map PackCall.message =
        (calls.map fun c => (c.message, (packet c.message).length)).map Prod.fst := by
      rw [List.map_map]
      rfl
    rw [hstream, hframes]
    apply decodeAll_frames
    · intro f hf
      obtain ⟨c, _, rfl⟩ := List.mem_map.mp hf
      simp [headSize]
    · intro pre f post hsplit
      obtain ⟨before, rest, rfl, rfl, hrest⟩ := List.map_eq_append_iff.mp hsplit
      obtain ⟨c, after, rfl, rfl, rfl⟩ := List.map_eq_cons_iff.mp hrest
      have hc : c ∈ before ++ c :: after := by simp
      rw [Nat.zero_add]
      exact unpackAt_between (by simpa [PackCall.message] using hlt c hc)
        (by simpa [PackCall.message] using hdst c hc)
    · simp [List.length_flatMap, Function.comp_def]
    · rw [List.length_map, List.length_flatMap]
      exact length_le_sum_packets calls

/-- The block that holds some bytes and then zeros. -/
def blockOf (xs : List UInt8) : Block := store (fun _ => 0) 0 xs

def packSample : List PackCall :=
  [⟨blockOf [1, 2, 3], 3, blockOf [], 16⟩, ⟨blockOf [], 0, blockOf [9, 9], 2⟩, ⟨blockOf [7], 1, blockOf [], 3⟩]

theorem unpackAll_packed_sample :
    unpackAll (packSample.flatMap PackCall.bytes) (blockOf []) (fun _ => blockOf []) 3 =
      some [[1, 2, 3], [], [7]] :=
  (@unpackAll_packed packSample _ _ _ (by decide) (by decide)).mpr (by decide)

/-- A message of 65536 bytes is packed, and comes back empty. -/
theorem not_unpackAll_packed :
    ¬ ∀ (calls : List PackCall) (beyond : Block) (dst : ℕ → Block) (dstSize : ℕ),
      (∀ c ∈ calls, c.Packed) → (∀ c ∈ calls, c.msgSize ≤ dstSize) →
        unpackAll (calls.flatMap PackCall.bytes) beyond dst dstSize = some (calls.map PackCall.message) := by
  intro h
  have hpacked : PackCall.Packed ⟨blockOf [], 65536, blockOf [], 65538⟩ := by
    refine ⟨by decide, ?_, ?_⟩
    · rw [PackCall.run, pack_ret]
      decide
    · rw [PackCall.run, pack_ret]
      decide
  have hcall := h [⟨blockOf [], 65536, blockOf [], 65538⟩] (blockOf []) (fun _ => blockOf []) 65536
    (List.forall_mem_singleton.mpr hpacked) (List.forall_mem_singleton.mpr le_rfl)
  obtain ⟨pos, hpos⟩ := mem_decodeAll hcall List.mem_cons_self
  have hlen : (PackCall.message ⟨blockOf [], 65536, blockOf [], 65538⟩).length < 65536 :=
    hpos ▸ length_unpackAt _ _ _ _ pos
  rw [PackCall.message, length_load] at hlen
  exact absurd hlen (lt_irrefl _)

/-! ## What `Unpack` reads -/

/-- No byte is read at or behind `msgSize`, and an answer that says a packet was decoded, with its body
copied, is given only when the whole packet is there. -/
def ReadsInside (msg : Block) (msgSize : ℕ) (pkg : Option Block) (pkgSize : ℕ) : Prop :=
  let r := unpack (some msg) msgSize pkg pkgSize
  (∀ off ∈ r.reads, off < msgSize) ∧
    (0 < r.ret → r.ret ≤ msgSize → r.copied = true → headSize + bodySize msg ≤ msgSize)

section Reads
variable {msg pkg : Block} {msgSize pkgSize : ℕ}

theorem unpack_refused (h : pkgSize < bodySize msg) : unpack (some msg) msgSize (some pkg) pkgSize =
    ⟨bodySize msg, some pkg, List.range headSize, false⟩ := by
  simp only [unpack, if_pos h]

theorem unpack_copied (h : bodySize msg ≤ pkgSize) : unpack (some msg) msgSize (some pkg) pkgSize =
    ⟨bodySize msg + headSize, some (store pkg 0 (load msg headSize (bodySize msg))),
      List.range headSize ++ List.range' headSize (bodySize msg), true⟩ := by
  simp only [unpack, if_neg (Nat.not_lt.mpr h)]

end Reads

/-- `Unpack` stays inside if and only if the header is there and the body is, or is too large for the
destination. -/
theorem readsInside_iff (msg : Block) (msgSize : ℕ) (pkg : Option Block) (pkgSize : ℕ) :
    ReadsInside msg msgSize pkg pkgSize ↔
      pkg = none ∨ headSize ≤ msgSize ∧ (pkgSize < bodySize msg ∨ headSize + bodySize msg ≤ msgSize) := by
  cases pkg with
  | none => simp [ReadsInside, unpack]
  | some pkg =>
    rw [ReadsInside]
    rcases Nat.lt_or_ge pkgSize (bodySize msg) with hsize | hsize
    · rw [unpack_refused hsize]
      constructor
      · rintro ⟨hreads, _⟩
        exact Or.inr ⟨hreads 1 (List.mem_range.mpr (by decide)), Or.inl hsize⟩
      · rintro (hnull | ⟨hhead, _⟩)
        · cases hnull
        · exact ⟨fun off hoff => (List.mem_range.mp hoff).trans_le hhead, fun _ _ hcopied => by cases hcopied⟩
    · rw [unpack_copied hsize]
      constructor
      · rintro ⟨hreads, _⟩
        have hhead : headSize ≤ msgSize := hreads 1 (List.mem_append_left _ (by decide))
        refine Or.inr ⟨hhead, Or.inr ?_⟩
        rcases Nat.eq_zero_or_pos (bodySize msg) with hzero | hpos
        · omega
        · have hlast := hreads (headSize + bodySize msg - 1)
            (List.mem_append_right _ (List.mem_range'_1.mpr (by omega)))
          omega
      · rintro (hnull | ⟨hhead, hbody⟩)
        · cases hnull
        · have hall : headSize + bodySize msg ≤ msgSize := by omega
          refine ⟨fun off hoff => ?_, fun _ _ _ => hall⟩
          rcases List.mem_append.mp hoff with hoff | hoff
          · exact (List.mem_range.mp hoff).trans_le hhead
          · exact (List.mem_range'_1.mp hoff).2.trans_le hall

/-- A header alone that announces five bytes. -/
theorem not_readsInside :
    ¬ ∀ (msg : Block) (msgSize : ℕ) (pkg : Option Block) (pkgSize : ℕ), ReadsInside msg msgSize pkg pkgSize := by
  intro h
  have hreads := (h (blockOf [5, 0]) 2 (some (blockOf [])) 16).1 2 (by decide)
  exact absurd hreads (by decide)

end Chaos.Package
