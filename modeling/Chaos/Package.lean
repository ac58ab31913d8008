import Chaos.ByteMemory
import Chaos.FrameStreams
import Chaos.Word32
import Mathlib.Tactic.NormNum

/-!
# Packets

`package/Package.h` and `package/Package.cpp`. A packet is a `uint16` with the size of the body, low byte
first, and the body. A pointer is the block it points to, or `none` for null.
-/
namespace Chaos.Package

open ByteMemory FrameStreams Word32

abbrev Block := ℕ → UInt8

/-- The two bytes of a `uint16`, which takes a larger number modulo 2^16. -/
def packHead (size : ℕ) : List UInt8 := [UInt8.ofNat size, UInt8.ofNat (size / 256)]

/-- `*(uint16*)msg`. -/
def bodySize (msg : Block) : ℕ := (msg 0).toNat + 256 * (msg 1).toNat

def headSize : ℕ := 2

/-- `Pack` with what it returns and the block at `pkg` afterwards. -/
def pack (msg : Option Block) (msgSize : ℕ) (pkg : Option Block) (pkgSize : ℕ) : ℕ × Option Block :=
  match msg, pkg with
  | some msg, some pkg =>
    let pkg := store pkg 0 (packHead msgSize)
    if pkgSize < add32 msgSize headSize then (add32 msgSize headSize, some pkg)
    else (add32 msgSize headSize, some (store pkg headSize (load msg 0 msgSize)))
  | _, pkg => (0, pkg)

/-- What a call of `Unpack` does: its answer, the block at `pkg` afterwards, the offsets of `msg` that
it reads, and whether it copies the body. -/
structure Unpacked where
  ret : ℕ
  pkg : Option Block
  reads : List ℕ
  copied : Bool

/-- `Unpack`, which does not look at `msgSize`. -/
def unpack (msg : Option Block) (_msgSize : ℕ) (pkg : Option Block) (pkgSize : ℕ) : Unpacked :=
  match msg, pkg with
  | some msg, some pkg =>
    if pkgSize < bodySize msg then ⟨bodySize msg, some pkg, List.range headSize, false⟩
    else
      ⟨bodySize msg + headSize, some (store pkg 0 (load msg headSize (bodySize msg))),
        List.range headSize ++ List.range' headSize (bodySize msg), true⟩
  | _, pkg => ⟨0, pkg, [], false⟩

theorem bodySize_lt (msg : Block) : bodySize msg < 65536 := by
  have h₀ := (msg 0).toNat_lt
  have h₁ := (msg 1).toNat_lt
  rw [bodySize]
  omega

theorem bodySize_congr {msg msg' : Block} (h : ∀ i < headSize, msg i = msg' i) :
    bodySize msg = bodySize msg' := by
  simp only [bodySize]
  rw [h 0 (by decide), h 1 (by decide)]

/-- A header gives its number back modulo 2^16. -/
theorem bodySize_packHead (pkg : Block) (size : ℕ) : bodySize (store pkg 0 (packHead size)) = size % 65536 := by
  have h₀ : (store pkg 0 (packHead size)) 0 = UInt8.ofNat size := rfl
  have h₁ : (store pkg 0 (packHead size)) 1 = UInt8.ofNat (size / 256) := rfl
  rw [bodySize, h₀, h₁, UInt8.toNat_ofNat', UInt8.toNat_ofNat']
  omega

/-! ## Packing a message that the header can announce -/

section Pack
variable {msg pkg : Block} {msgSize pkgSize : ℕ}

theorem pack_ret : (pack (some msg) msgSize (some pkg) pkgSize).1 = add32 msgSize headSize := by
  simp only [pack]
  split_ifs <;> rfl

/-- The packet as bytes. -/
def packet (msg : List UInt8) : List UInt8 := packHead msg.length ++ msg

@[simp] theorem length_packet (msg : List UInt8) : (packet msg).length = headSize + msg.length := by
  simp only [packet, packHead, headSize, List.length_append, List.length_cons, List.length_nil]

theorem load_pack (hsize : msgSize + headSize ≤ pkgSize) (hlt : msgSize + headSize < word32) :
    (pack (some msg) msgSize (some pkg) pkgSize).2.map (load · 0 (msgSize + headSize)) =
      some (packet (load msg 0 msgSize)) := by
  have hadd : add32 msgSize headSize = msgSize + headSize := add32_of_lt hlt
  simp only [pack]
  rw [if_neg (by omega), Option.map_some, Nat.add_comm msgSize, load_add]
  have hhead : load (store (store pkg 0 (packHead msgSize)) headSize (load msg 0 msgSize)) 0 headSize =
      packHead msgSize := by
    rw [load_store_below _ _ (show 0 + headSize ≤ headSize by decide)]
    exact load_store_self pkg 0 (packHead msgSize)
  have hbody := load_store_self (store pkg 0 (packHead msgSize)) headSize (load msg 0 msgSize)
  rw [length_load] at hbody
  rw [hhead, Nat.zero_add, hbody, packet, length_load]

end Pack

/-- Unpacking a packet that lies in memory gives the message back. -/
theorem unpack_packet {mem pkg : Block} {msg : List UInt8} {pkgSize msgSize : ℕ}
    (hlt : msg.length < 65536) (hmem : load mem 0 (packet msg).length = packet msg)
    (hsize : msg.length ≤ pkgSize) :
    (unpack (some mem) msgSize (some pkg) pkgSize).ret = msg.length + headSize ∧
      (unpack (some mem) msgSize (some pkg) pkgSize).pkg.map (load · 0 msg.length) = some msg := by
  rw [length_packet, load_add, packet] at hmem
  obtain ⟨hhead, hbody⟩ := List.append_inj hmem (by simp [packHead, headSize])
  rw [Nat.zero_add] at hbody
  have hbytes : bodySize mem = msg.length := by
    have hback : bodySize mem = bodySize (store mem 0 (packHead msg.length)) := by
      apply bodySize_congr
      intro i hi
      have hi' : (load mem 0 headSize)[i]? = (packHead msg.length)[i]? := by rw [hhead]
      have hlen : i < (packHead msg.length).length := hi
      simp only [load, List.getElem?_map, List.getElem?_range hi, Option.map_some, Nat.zero_add] at hi'
      simp [store, ← hi']
    rw [hback, bodySize_packHead, Nat.mod_eq_of_lt hlt]
  simp only [unpack, hbytes]
  rw [if_neg (by omega), hbody]
  exact ⟨rfl, congrArg some (load_store_self pkg 0 msg)⟩

end Chaos.Package
