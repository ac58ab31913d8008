import Chaos.BufferOrder
import Mathlib.Data.List.TakeWhile

/-!
# The free tail of the ring

Where the two producers may put bytes. In the order of the reader the ring is the nodes in front of
the write node, the full nodes that follow, and the open tail; bytes put into the open tail come
after all the unread ones when its first node is not partly read and the others are empty.
-/
namespace Chaos.Buffer

open ByteMemory RingOrder Word32

/-- The nodes from the write node on, up to the one before the read node. -/
def fromWriter (b : Buffer) : List BufferNode :=
  b.ring.drop (offset b.buffList.length b.rNodeIt b.wNodeIt)

/-- `fromWriter` without the full nodes it begins with. -/
def openTail (b : Buffer) : List BufferNode :=
  b.fromWriter.dropWhile fun n => n.totalSize == n.useSize

/-- The node the next byte goes to is not partly read, and no unread byte lies behind it. -/
def TailFree (b : Buffer) : Prop :=
  match b.openTail with
  | [] => False
  | n :: ns => n.readCursor = 0 ∧ ∀ m ∈ ns, m.useSize = 0

instance (b : Buffer) : Decidable b.TailFree := by
  unfold TailFree
  cases b.openTail <;> infer_instance

def nodeRoom (n : BufferNode) : ℕ := n.totalSize - n.useSize

/-- The room in the node the next byte goes to. -/
def firstRoom (b : Buffer) : ℕ := (b.openTail.head?.map nodeRoom).getD 0

/-! ## Filling a node -/

def filled (n : BufferNode) (bytes : List Byte) : BufferNode :=
  { n with buffer := store n.buffer n.useSize bytes, useSize := n.useSize + bytes.length }

theorem filled_nil (n : BufferNode) : filled n [] = n := by simp [filled]

theorem GoodNode.filled {n : BufferNode} {bytes : List Byte} (h : GoodNode n) (hc : n.readCursor = 0)
    (hb : bytes.length ≤ nodeRoom n) : GoodNode (filled n bytes) := by
  obtain ⟨ht, hin, _⟩ := h
  rw [nodeRoom] at hb
  refine ⟨ht, ?_, fun _ => hc⟩
  simp only [Buffer.filled, hc]
  omega

theorem unreadNode_filled {n : BufferNode} (hc : n.readCursor = 0) (bytes : List Byte) :
    unreadNode (filled n bytes) = unreadNode n ++ bytes := by
  simp only [unreadNode, filled, hc]
  rw [load_add, load_store_below _ _ (by omega), Nat.zero_add, load_store_self]

section Ring
variable {b : Buffer} {i : ℕ} {x : BufferNode} {pre post : List BufferNode}

theorem node_of_ring (hr : b.rNodeIt < b.buffList.length) (hi : i < b.buffList.length)
    (hring : b.ring = pre ++ x :: post) (hpre : pre.length = offset b.buffList.length b.rNodeIt i) :
    b.node i = x := by
  have hget := getElem?_rotate_offset hr hi
  rw [show b.buffList.rotate b.rNodeIt = pre ++ x :: post from hring, ← hpre] at hget
  simp only [List.getElem?_append_right (Nat.le_refl _), Nat.sub_self, List.getElem?_cons_zero] at hget
  rw [node, List.getD_eq_getElem?_getD, ← hget]
  rfl

theorem ring_setNode (hr : b.rNodeIt < b.buffList.length) (hi : i < b.buffList.length)
    (hring : b.ring = pre ++ x :: post) (hpre : pre.length = offset b.buffList.length b.rNodeIt i)
    (n : BufferNode) : (b.setNode i n).ring = pre ++ n :: post := by
  have h := rotate_set hr hi n
  rw [show b.buffList.rotate b.rNodeIt = pre ++ x :: post from hring, ← hpre] at h
  simpa [ring, setNode] using h

theorem setNode_self (hi : i < b.buffList.length) : b.setNode i (b.node i) = b := by
  simp only [setNode, node, List.getD_eq_getElem _ _ hi, List.set_getElem_self]

end Ring

/-- The ring in front of the write node, the full nodes, the node that takes the bytes and the nodes
behind it. -/
theorem openTail_split {b : Buffer} {n : BufferNode} {ns : List BufferNode}
    (ht : b.openTail = n :: ns) :
    ∃ pre full, b.ring = pre ++ (full ++ n :: ns) ∧
      pre = b.ring.take (offset b.buffList.length b.rNodeIt b.wNodeIt) ∧
      (∀ m ∈ full, m.totalSize = m.useSize) ∧ n.totalSize ≠ n.useSize := by
  set full := b.fromWriter.takeWhile (fun m => m.totalSize == m.useSize) with hfull
  refine ⟨_, full, ?_, rfl, ?_, ?_⟩
  · rw [← ht, hfull, openTail, List.takeWhile_append_dropWhile, fromWriter, List.take_append_drop]
  · intro m hm
    simpa using List.mem_takeWhile_imp hm
  · have hhead := List.head?_dropWhile_not (fun m : BufferNode => m.totalSize == m.useSize) b.fromWriter
    rw [show b.fromWriter.dropWhile _ = n :: ns from ht] at hhead
    simpa using hhead

/-- Replacing the nodes from the write node on keeps `Good` when the new ones are good and the sizes
agree. -/
theorem Good.replaceTail {b b' : Buffer} (h : b.Good) {pre old new : List BufferNode}
    (hring : b.ring = pre ++ old) (hring' : b'.ring = pre ++ new) (hnew : ∀ m ∈ new, GoodNode m)
    (hsize : b'.useSize + sumUse old = b.useSize + sumUse new) (hsmall : b'.useSize < word32)
    (hne : b.buffList ≠ []) (hlen : b'.buffList.length = b.buffList.length)
    (hw : b'.wNodeIt < b.buffList.length) (hr : b'.rNodeIt = b.rNodeIt) : b'.Good := by
  have hmem (m : BufferNode) : m ∈ b'.buffList → m ∈ pre ++ new := by
    intro hm
    rw [← hring']
    exact List.mem_rotate.mpr hm
  refine ⟨?_, ?_, hsmall, ?_, ?_, ?_⟩
  · intro m hm
    rcases List.mem_append.mp (hmem m hm) with hp | hn
    · have hb : m ∈ b.ring := by simp [hring, hp]
      exact h.nodes m (List.mem_rotate.mp hb)
    · exact hnew m hn
  · have hs := h.sum
    rw [← sumUse_ring, hring, sumUse_append] at hs
    rw [← sumUse_ring, hring', sumUse_append]
    omega
  · exact hlen ▸ h.count
  · intro hnil
    rw [hnil] at hlen
    exact absurd (List.eq_nil_of_length_eq_zero hlen.symm) hne
  · intro _
    rw [hlen, hr]
    exact ⟨hw, (h.iters hne).2⟩

/-- What the producers start from. -/
theorem Good.tail {b : Buffer} (h : b.Good) (ht : b.TailFree) :
    ∃ pre full n ns, b.ring = pre ++ (full ++ n :: ns) ∧ b.openTail = n :: ns ∧
      pre.length = offset b.buffList.length b.rNodeIt b.wNodeIt ∧ b.buffList ≠ [] ∧
      (∀ m ∈ full, m.totalSize = m.useSize) ∧ n.totalSize ≠ n.useSize ∧ n.readCursor = 0 ∧
      ∀ m ∈ ns, m.useSize = 0 := by
  cases hopen : b.openTail with
  | nil =>
    rw [TailFree, hopen] at ht
    exact ht.elim
  | cons n ns =>
    obtain ⟨hcursor, hrest⟩ : n.readCursor = 0 ∧ ∀ m ∈ ns, m.useSize = 0 := by
      simpa [TailFree, hopen] using ht
    obtain ⟨pre, full, hring, hpre, hfull, hn⟩ := openTail_split hopen
    have hne : b.buffList ≠ [] := by
      intro hnil
      simp [ring, hnil] at hring
    obtain ⟨hw, hr⟩ := h.iters hne
    refine ⟨pre, full, n, ns, hring, rfl, ?_, hne, hfull, hn, hcursor, hrest⟩
    have ho := offset_lt hr hw
    rw [hpre, List.length_take, ring, List.length_rotate]
    omega

/-! ## Making room -/

/-- `Expand` refuses before the fuel of the loop is used up. -/
theorem Good.expandLoop_isSome {b : Buffer} (h : b.Good) (size : ℕ) {fuel : ℕ}
    (hfuel : 1048576 < fuel + b.buffList.length) : (Buffer.expandLoop fuel b size).isSome := by
  induction fuel generalizing b with
  | zero =>
    have hc := h.count
    omega
  | succ fuel ih =>
    rw [Buffer.expandLoop]
    split_ifs
    · cases hx : b.expand with
      | none => rfl
      | some b₁ =>
        obtain ⟨h₁, _, _, hlen⟩ := h.expand hx
        exact ih h₁ (by omega)
    · rfl

/-- `Reserver` always returns; it changes neither the unread bytes nor their number. -/
theorem Good.reserver {b : Buffer} (h : b.Good) (size : ℕ) :
    ∃ ok b', b.reserver size = some (ok, b') ∧ b'.Good ∧ b'.unread = b.unread ∧
      b'.useSize = b.useSize ∧ (ok = true → size ≤ b'.getLeftSize) := by
  have hfuel : 1048576 < b.expandFuel + b.buffList.length := by
    rw [expandFuel]
    omega
  obtain ⟨⟨ok, b'⟩, hres⟩ := Option.isSome_iff_exists.mp (h.expandLoop_isSome size hfuel)
  exact ⟨ok, b', hres, h.expandLoop hres⟩

end Chaos.Buffer
