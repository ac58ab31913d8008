import Chaos.Buffer
import Mathlib.Algebra.BigOperators.Group.List.Basic
import Mathlib.Algebra.Order.BigOperators.Group.List
import Mathlib.Data.List.GetD

/-!
# The unread bytes of a buffer, in ring order

`Good` is what the send path and the receive path keep as long as no byte is written into a partly
read node. Growing the ring leaves the unread bytes alone, and the two ways of consuming bytes drop
them from the front; both read loops make the same step, `consume`.
-/
namespace Chaos.Buffer

open ByteMemory RingOrder Word32

structure GoodNode (n : BufferNode) : Prop where
  total : n.totalSize = bufferInitSize
  inside : n.readCursor + n.useSize ≤ bufferInitSize
  drained : n.useSize = 0 → n.readCursor = 0

def sumUse (l : List BufferNode) : ℕ := (l.map BufferNode.useSize).sum

structure Good (b : Buffer) : Prop where
  nodes : ∀ n ∈ b.buffList, GoodNode n
  sum : b.useSize = sumUse b.buffList
  small : b.useSize < word32
  count : b.buffList.length ≤ 1048576
  ends : b.buffList = [] → b.wNodeIt = 0 ∧ b.rNodeIt = 0
  iters : b.buffList ≠ [] → b.wNodeIt < b.buffList.length ∧ b.rNodeIt < b.buffList.length

theorem good_empty : Good empty :=
  ⟨by simp [empty], rfl, by decide, by simp [empty], fun _ => ⟨rfl, rfl⟩, by simp [empty]⟩

theorem goodNode_newNode : GoodNode newNode := ⟨rfl, by decide, fun _ => rfl⟩

@[simp] theorem unreadNode_length (n : BufferNode) : (unreadNode n).length = n.useSize := by
  simp [unreadNode]

theorem unreadNode_nil {n : BufferNode} (h : n.useSize = 0) : unreadNode n = [] := by
  simp [unreadNode, h]

@[simp] theorem sumUse_nil : sumUse [] = 0 := rfl

@[simp] theorem sumUse_cons (n : BufferNode) (l : List BufferNode) :
    sumUse (n :: l) = n.useSize + sumUse l := rfl

@[simp] theorem sumUse_append (l l' : List BufferNode) : sumUse (l ++ l') = sumUse l + sumUse l' := by
  simp [sumUse]

theorem sumUse_perm {l l' : List BufferNode} (h : l.Perm l') : sumUse l = sumUse l' :=
  (h.map BufferNode.useSize).sum_eq

theorem sumUse_zero {l : List BufferNode} (h : sumUse l = 0) : ∀ n ∈ l, n.useSize = 0 := by
  intro n hn
  exact List.sum_eq_zero_iff.mp h _ (List.mem_map_of_mem hn)

theorem sumUse_ring (b : Buffer) : sumUse b.ring = sumUse b.buffList :=
  sumUse_perm (List.rotate_perm _ _)

theorem unread_length (b : Buffer) : b.unread.length = sumUse b.buffList := by
  rw [← sumUse_ring]
  rw [unread]
  induction b.ring with
  | nil => rfl
  | cons n l ih => simp [ih]

theorem flatMap_unread_nil {l : List BufferNode} (h : ∀ n ∈ l, n.useSize = 0) :
    l.flatMap unreadNode = [] := by
  simp only [List.flatMap_eq_nil_iff]
  exact fun n hn => unreadNode_nil (h n hn)

theorem unread_nil {b : Buffer} (h : sumUse b.buffList = 0) : b.unread = [] :=
  List.eq_nil_of_length_eq_zero ((unread_length b).trans h)

/-! ## Growing the ring -/

theorem sumUse_insert (l : List BufferNode) (i : ℕ) :
    sumUse (insertAt l i newNode) = sumUse l := by
  rw [sumUse_perm (perm_insertAt l i newNode)]
  simp [newNode]

theorem Good.nodes_insert {b : Buffer} (h : b.Good) (i : ℕ) :
    ∀ n ∈ insertAt b.buffList i newNode, GoodNode n := by
  intro n hn
  rcases List.mem_cons.mp ((perm_insertAt b.buffList i newNode).mem_iff.mp hn) with rfl | hn
  · exact goodNode_newNode
  · exact h.nodes n hn

/-- No node holds more than lies between its cursor and its end, so nothing is moved. -/
theorem Good.no_move {b : Buffer} (h : b.Good) {i : ℕ} (hi : i < b.buffList.length) :
    ¬ sub32 (b.node i).totalSize (b.node i).readCursor < (b.node i).useSize := by
  have hm : b.node i ∈ b.buffList := by
    rw [node]
    rw [List.getD_eq_getElem _ _ hi]
    exact List.getElem_mem hi
  obtain ⟨ht, hin, _⟩ := h.nodes _ hm
  rw [ht, sub32_of_le (by omega)]
  omega

/-- Inserting an empty node in front of cell `i` keeps `Good`, whatever the iterators become. -/
theorem Good.insert {b : Buffer} (h : b.Good) (hlim : b.buffList.length < 1048576) {i w r : ℕ}
    (hi : i ≤ b.buffList.length) (hw : w ≤ b.buffList.length) (hr : r ≤ b.buffList.length) :
    Good ⟨insertAt b.buffList i newNode, w, r, b.useSize⟩ := by
  have hlen : (insertAt b.buffList i newNode).length = b.buffList.length + 1 := length_insertAt _ hi
  refine ⟨h.nodes_insert _, ?_, h.small, ?_, ?_, ?_⟩
  · rw [sumUse_insert]
    exact h.sum
  · rw [hlen]
    exact hlim
  · intro hn
    simp [insertAt] at hn
  · intro _
    simp only [hlen]
    omega

def withUse (n : BufferNode) (useSize : ℕ) : BufferNode := { n with useSize := useSize }

/-- What `Expand` may do. -/
inductive ExpandPass (b : Buffer) : Buffer → Prop where
  | first (h : b.buffList = []) : ExpandPass b { b with buffList := [newNode], wNodeIt := 0, rNodeIt := 0 }
  /-- The node that is both read and written holds more than lies behind its cursor. -/
  | moved (h : b.buffList ≠ []) (heq : b.wNodeIt = b.rNodeIt) (real : ℕ)
      (hreal : real = sub32 (b.node b.wNodeIt).totalSize (b.node b.wNodeIt).readCursor)
      (hlt : real < (b.node b.wNodeIt).useSize) (front : BufferNode)
      (hcursor : front.readCursor = 0) (htotal : front.totalSize = bufferInitSize)
      (hfront : front.useSize = (b.node b.wNodeIt).useSize - real) :
      ExpandPass b { b with
        buffList := insertAt (b.buffList.set b.wNodeIt (withUse (b.node b.wNodeIt) real)) b.wNodeIt front
        rNodeIt := b.rNodeIt + 1 }
  | front (h : b.buffList ≠ []) (heq : b.wNodeIt = b.rNodeIt) :
      ExpandPass b { b with buffList := insertAt b.buffList b.wNodeIt newNode, rNodeIt := b.rNodeIt + 1 }
  | behind (h : b.buffList ≠ []) :
      ExpandPass b { b with
        buffList := insertAt b.buffList (b.wNodeIt + 1) newNode
        rNodeIt := if b.wNodeIt + 1 ≤ b.rNodeIt then b.rNodeIt + 1 else b.rNodeIt }

theorem pass_of_expand {b b' : Buffer} (he : b.expand = some b') : b.buffList.length < 1048576 ∧ ExpandPass b b' := by
  rw [Buffer.expand] at he
  split at he
  · cases he
  next hlim =>
  have hlim : b.buffList.length < 1048576 := by
    rw [bufferInitSize] at hlim
    omega
  refine ⟨hlim, ?_⟩
  split at he
  next hnil =>
    obtain rfl := Option.some.inj he
    exact .first hnil
  next hnil =>
  split at he
  next heq =>
    dsimp only at he
    split at he
    next hlt =>
      obtain rfl := Option.some.inj he
      exact .moved hnil heq.1 _ rfl hlt _ rfl rfl rfl
    next hlt =>
      obtain rfl := Option.some.inj he
      exact .front hnil heq.1
  next heq =>
    obtain rfl := Option.some.inj he
    exact .behind hnil

/-- `Expand` adds one node and leaves the unread bytes alone. -/
theorem Good.expand {b b' : Buffer} (h : b.Good) (he : b.expand = some b') :
    b'.Good ∧ b'.unread = b.unread ∧ b'.useSize = b.useSize ∧
      b'.buffList.length = b.buffList.length + 1 := by
  obtain ⟨hlim, hpass⟩ := pass_of_expand he
  cases hpass with
  | first hnil =>
    have hu : b.useSize = 0 := by rw [h.sum, hnil]; rfl
    refine ⟨⟨?_, ?_, h.small, by simp, by simp, by simp⟩, ?_, rfl, by simp [hnil]⟩
    · simpa using goodNode_newNode
    · simp [hu, newNode]
    · rw [unread_nil (by simp [newNode]), unread_nil (by simp [hnil])]
  | moved hnil heq real hreal hlt =>
    obtain ⟨hw, -⟩ := h.iters hnil
    exact absurd (hreal ▸ hlt) (h.no_move hw)
  | front hnil heq =>
    obtain ⟨hw, hr⟩ := h.iters hnil
    refine ⟨h.insert hlim hw.le hw.le hr, ?_, rfl, length_insertAt _ hw.le⟩
    simp only [unread, ring]
    rw [heq, rotate_insertAt_self hr]
    simp [unreadNode, newNode]
  | behind hnil =>
    obtain ⟨hw, hr⟩ := h.iters hnil
    refine ⟨h.insert hlim hw hw.le (by split_ifs <;> omega), ?_, rfl, length_insertAt _ hw⟩
    obtain ⟨xs, ys, hxy, _, hins⟩ := rotate_insertAt_after hr hw newNode
    simp only [unread, ring]
    rw [hins, hxy]
    simp [unreadNode, newNode]

theorem Good.expandLoop {fuel size : ℕ} {ok : Bool} {b b' : Buffer} (h : b.Good)
    (he : expandLoop fuel b size = some (ok, b')) :
    b'.Good ∧ b'.unread = b.unread ∧ b'.useSize = b.useSize ∧
      (ok = true → size ≤ b'.getLeftSize) := by
  induction fuel generalizing b with
  | zero => simp [Buffer.expandLoop] at he
  | succ fuel ih =>
    simp only [Buffer.expandLoop] at he
    split_ifs at he with hlt
    · cases hx : b.expand with
      | none =>
        simp only [hx, Option.some.injEq, Prod.mk.injEq] at he
        obtain ⟨rfl, rfl⟩ := he
        exact ⟨h, rfl, rfl, by simp⟩
      | some b₁ =>
        simp only [hx] at he
        obtain ⟨h₁, hu, hs, _⟩ := h.expand hx
        obtain ⟨h₂, hu', hs', hok⟩ := ih h₁ he
        exact ⟨h₂, hu'.trans hu, hs'.trans hs, hok⟩
    · simp only [Option.some.injEq, Prod.mk.injEq] at he
      obtain ⟨rfl, rfl⟩ := he
      exact ⟨h, rfl, rfl, fun _ => by omega⟩

/-! ## Consuming bytes -/

/-- One pass of either read loop: `k` bytes leave the node under the read iterator. -/
def consume (b : Buffer) (k : ℕ) : Buffer :=
  let n := b.node b.rNodeIt
  let cursor := if n.useSize - k = 0 then 0 else n.readCursor + k
  let b' := { b.setNode b.rNodeIt { n with useSize := n.useSize - k, readCursor := cursor } with
    useSize := sub32 b.useSize k }
  if n.useSize - k = 0 then b'.getNextRNodeIt else b'

theorem readLoop_pos (fuel : ℕ) (b : Buffer) (out : List Byte) {left : ℕ} (h : 0 < left) :
    readLoop (fuel + 1) b out left =
      readLoop fuel (b.consume (min left (b.node b.rNodeIt).useSize))
        (out ++ load (b.node b.rNodeIt).buffer (b.node b.rNodeIt).readCursor
          (min left (b.node b.rNodeIt).useSize))
        (left - min left (b.node b.rNodeIt).useSize) := by
  have hmin : (if left > (b.node b.rNodeIt).useSize then (b.node b.rNodeIt).useSize else left) =
      min left (b.node b.rNodeIt).useSize := by split_ifs <;> omega
  simp only [readLoop, if_pos h, hmin, consume]
  split_ifs <;> rfl

theorem moveReadLoop_pos (fuel : ℕ) (b : Buffer) {size : ℕ} (h : 0 < size) :
    moveReadLoop (fuel + 1) b size =
      moveReadLoop fuel (b.consume (min size (b.node b.rNodeIt).useSize))
        (size - min size (b.node b.rNodeIt).useSize) := by
  have hmin : (if (b.node b.rNodeIt).useSize > size then size else (b.node b.rNodeIt).useSize) =
      min size (b.node b.rNodeIt).useSize := by split_ifs <;> omega
  simp only [moveReadLoop, if_pos h, hmin, consume]
  split_ifs <;> rfl

theorem readLoop_zero (fuel : ℕ) (b : Buffer) (out : List Byte) :
    readLoop fuel b out 0 = some (out, b) := by
  cases fuel <;> simp [readLoop]

theorem moveReadLoop_zero (fuel : ℕ) (b : Buffer) : moveReadLoop fuel b 0 = some b := by
  cases fuel <;> simp [moveReadLoop]

theorem node_eq_head {b : Buffer} {it : ℕ} {x : BufferNode} {xs : List BufferNode}
    (hit : it < b.buffList.length) (h : b.buffList.rotate it = x :: xs) : b.node it = x := by
  have hh := List.head?_rotate hit
  rw [h, List.getElem?_eq_getElem hit, List.head?_cons, Option.some.injEq] at hh
  rw [node, List.getD_eq_getElem _ _ hit, ← hh]

theorem ring_set {b : Buffer} (hr : b.rNodeIt < b.buffList.length) {x : BufferNode}
    {xs : List BufferNode} (h : b.ring = x :: xs) (n : BufferNode) :
    (b.buffList.set b.rNodeIt n).rotate b.rNodeIt = n :: xs := by
  rw [rotate_set hr hr, offset_self]
  rw [show b.buffList.rotate b.rNodeIt = x :: xs from h]
  rfl

/-- The node left behind by `consume`. -/
def consumed (n : BufferNode) (k : ℕ) : BufferNode :=
  { n with useSize := n.useSize - k, readCursor := if n.useSize - k = 0 then 0 else n.readCursor + k }

@[simp] theorem consumed_useSize (n : BufferNode) (k : ℕ) : (consumed n k).useSize = n.useSize - k := rfl

theorem GoodNode.consumed {n : BufferNode} (h : GoodNode n) {k : ℕ} (hk : k ≤ n.useSize) :
    GoodNode (consumed n k) := by
  obtain ⟨ht, hin, hd⟩ := h
  refine ⟨ht, ?_, ?_⟩
  · simp only [Buffer.consumed]
    split_ifs <;> omega
  · intro h0
    simp only [Buffer.consumed] at h0 ⊢
    simp [h0]

theorem unreadNode_consumed {n : BufferNode} {k : ℕ} (hk : k ≤ n.useSize) :
    unreadNode (consumed n k) = (unreadNode n).drop k := by
  rw [unreadNode, unreadNode, drop_load _ _ hk, consumed]
  split_ifs with h0
  · simp [h0]
  · rfl

section Consume
variable {b : Buffer} {x : BufferNode} {xs : List BufferNode} {k : ℕ}

theorem Good.le_useSize (h : b.Good) (hx : b.ring = x :: xs) (hk : k ≤ x.useSize) : k ≤ b.useSize := by
  rw [h.sum, ← sumUse_ring, hx, sumUse_cons]
  omega

theorem consume_buffList (hn : b.node b.rNodeIt = x) :
    (b.consume k).buffList = b.buffList.set b.rNodeIt (consumed x k) := by
  simp only [Buffer.consume, hn, consumed]
  split_ifs <;> rfl

theorem consume_useSize (b : Buffer) (k : ℕ) : (b.consume k).useSize = sub32 b.useSize k := by
  simp only [Buffer.consume]
  split_ifs <;> rfl

theorem consume_iters (hw : b.wNodeIt < b.buffList.length) (hr : b.rNodeIt < b.buffList.length) :
    (b.consume k).wNodeIt < b.buffList.length ∧ (b.consume k).rNodeIt < b.buffList.length := by
  have hnext := next_lt hr
  simp only [Buffer.consume, getNextRNodeIt, setNode, List.length_set]
  split_ifs <;> simp_all

theorem sumUse_consumed (hr : b.rNodeIt < b.buffList.length) (hx : b.ring = x :: xs) (hk : k ≤ x.useSize) :
    sumUse (b.buffList.set b.rNodeIt (consumed x k)) + k = sumUse b.buffList := by
  have hperm := (List.rotate_perm (b.buffList.set b.rNodeIt (consumed x k)) b.rNodeIt).symm
  rw [sumUse_perm hperm, ring_set hr hx, ← sumUse_ring, hx, sumUse_cons, sumUse_cons, consumed_useSize]
  omega

theorem Good.consume (h : b.Good) (hne : b.buffList ≠ []) (hx : b.ring = x :: xs)
    (hn : b.node b.rNodeIt = x) (hk : k ≤ x.useSize) :
    (b.consume k).Good ∧ (b.consume k).useSize = b.useSize - k ∧
      (b.consume k).buffList.length = b.buffList.length := by
  obtain ⟨hw, hr⟩ := h.iters hne
  have hlist := consume_buffList (k := k) hn
  have huse : (b.consume k).useSize = b.useSize - k := by
    rw [consume_useSize, sub32_of_le (h.le_useSize hx hk)]
  have hlen : (b.consume k).buffList.length = b.buffList.length := by rw [hlist]; simp
  refine ⟨⟨?_, ?_, ?_, ?_, ?_, ?_⟩, huse, hlen⟩
  · intro n hm
    rw [hlist] at hm
    rcases List.mem_or_eq_of_mem_set hm with hm | rfl
    · exact h.nodes n hm
    · have hmx : x ∈ b.buffList := List.mem_rotate.mp (show x ∈ b.ring by simp [hx])
      exact (h.nodes x hmx).consumed hk
  · have hsum := sumUse_consumed hr hx hk
    rw [huse, hlist, h.sum]
    omega
  · rw [huse]
    have := h.small
    omega
  · rw [hlen]
    exact h.count
  · intro hnil
    rw [hlist] at hnil
    simp [hne] at hnil
  · intro _
    rw [hlen]
    exact consume_iters hw hr

theorem consume_ring (hr : b.rNodeIt < b.buffList.length) (hle : k ≤ b.useSize) (hx : b.ring = x :: xs)
    (hn : b.node b.rNodeIt = x) :
    (k < x.useSize → (b.consume k).ring = consumed x k :: xs) ∧
      (k = x.useSize → 0 < b.useSize - k → (b.consume k).ring = xs ++ [consumed x k]) := by
  have hset := ring_set hr hx (consumed x k)
  have hs := sub32_of_le hle
  constructor
  · intro hlt
    simpa [Buffer.consume, hn, setNode, ring, consumed, Nat.sub_ne_zero_of_lt hlt] using hset
  · intro heq hpos
    have hr' : b.rNodeIt < (b.buffList.set b.rNodeIt (consumed x k)).length := by simpa using hr
    have hnext := rotate_next_cons hset
    simp only [List.length_set] at hnext
    subst heq
    simpa [Buffer.consume, hn, setNode, ring, consumed, getNextRNodeIt, hs, hpos] using hnext

/-- Consuming from the node under the read iterator drops the first unread bytes. -/
theorem consume_unread (h : b.Good) (hne : b.buffList ≠ []) (hx : b.ring = x :: xs)
    (hn : b.node b.rNodeIt = x) (hk : k ≤ x.useSize) :
    (b.consume k).unread = b.unread.drop k := by
  obtain ⟨hpart, hall⟩ := consume_ring (h.iters hne).2 (h.le_useSize hx hk) hx hn
  obtain ⟨hg, huse, _⟩ := h.consume hne hx hn hk
  have hb : b.unread = unreadNode x ++ xs.flatMap unreadNode := by simp [unread, hx]
  have hkl : k ≤ (unreadNode x).length := by simpa using hk
  rw [hb, List.drop_append_of_le_length hkl, ← unreadNode_consumed hk]
  rcases Nat.lt_or_eq_of_le hk with hlt | heq
  · simp [unread, hpart hlt]
  · rcases Nat.eq_zero_or_pos (b.useSize - k) with h0 | hpos
    · have hz : sumUse (b.consume k).buffList = 0 := by rw [← hg.sum, huse, h0]
      have hxs : sumUse xs = 0 := by
        have hs := h.sum
        rw [← sumUse_ring, hx, sumUse_cons] at hs
        omega
      rw [unread_nil hz, flatMap_unread_nil (sumUse_zero hxs),
        unreadNode_nil (by simp [consumed, heq])]
      rfl
    · have hnode : (consumed x k).useSize = 0 := by simp [consumed, heq]
      simp [unread, hall heq hpos, unreadNode_nil hnode]

end Consume

/-- What a pass reads and what it leaves to the passes after it. -/
theorem take_unread_cons (x : BufferNode) (xs : List BufferNode) (left : ℕ) :
    ((x :: xs).flatMap unreadNode).take left = load x.buffer x.readCursor (min left x.useSize) ++
      (xs.flatMap unreadNode).take (left - min left x.useSize) := by
  rw [List.flatMap_cons, List.take_append, unreadNode_length, unreadNode, ← take_load _ _ (Nat.min_le_right left x.useSize)]
  congr 1
  · rcases Nat.le_total left x.useSize with hle | hle
    · rw [Nat.min_eq_left hle]
    · rw [Nat.min_eq_right hle, List.take_of_length_le (by simpa using hle), List.take_of_length_le (by simp)]
  · congr 1
    omega

section ReadLoops
variable {P : Buffer → Prop} (hexact : ∀ c, P c → c.useSize = sumUse c.buffList)
variable (hiter : ∀ c, P c → c.buffList ≠ [] → c.rNodeIt < c.buffList.length)
variable (hconsume : ∀ c x zs k, P c → c.ring = x :: zs → k ≤ x.useSize → P (c.consume k))
include hexact hiter hconsume

/-- Both loops run to the same buffer. The induction is on the nodes the reader has not come to yet, and those
it has left hold nothing; a drained node makes no progress in bytes but is one of them less. -/
theorem readLoops_run {b : Buffer} (hb : P b) {xs ys : List BufferNode} (hring : b.ring = xs ++ ys)
    (hys : ∀ y ∈ ys, y.useSize = 0) {left fuel : ℕ} (hleft : left ≤ sumUse xs) (hfuel : xs.length ≤ fuel)
    (out : List Byte) :
    ∃ b', readLoop fuel b out left = some (out ++ (xs.flatMap unreadNode).take left, b') ∧
      moveReadLoop fuel b left = some b' ∧ P b' ∧ b'.useSize = b.useSize - left := by
  induction xs generalizing b left fuel ys out with
  | nil =>
    obtain rfl : left = 0 := by simpa using hleft
    exact ⟨b, by simp [readLoop_zero], moveReadLoop_zero fuel b, hb, rfl⟩
  | cons x xs ih =>
    rcases Nat.eq_zero_or_pos left with rfl | hpos
    · exact ⟨b, by simp [readLoop_zero], moveReadLoop_zero fuel b, hb, rfl⟩
    obtain ⟨fuel, rfl⟩ : ∃ f, fuel = f + 1 := ⟨fuel - 1, by simp at hfuel; omega⟩
    rw [List.length_cons, Nat.add_le_add_iff_right] at hfuel
    rw [sumUse_cons] at hleft
    have hne : b.buffList ≠ [] := by
      intro hn
      simp [ring, hn] at hring
    have hring' : b.ring = x :: (xs ++ ys) := hring
    have hr := hiter b hb hne
    have hx : b.node b.rNodeIt = x := node_eq_head hr hring'
    rw [readLoop_pos fuel b out hpos, moveReadLoop_pos fuel b hpos, hx, take_unread_cons, ← List.append_assoc]
    set k := min left x.useSize with hk
    have hkx : k ≤ x.useSize := Nat.min_le_right _ _
    have hPc := hconsume b x _ k hb hring' hkx
    have hsum : b.useSize = x.useSize + sumUse xs + sumUse ys := by
      rw [hexact b hb, ← sumUse_ring, hring', sumUse_cons, sumUse_append, Nat.add_assoc]
    have huse : (b.consume k).useSize = b.useSize - k := by
      rw [consume_useSize, sub32_of_le (by omega)]
    rcases Nat.eq_zero_or_pos (left - k) with h0 | hpos'
    · rw [h0]
      have hleft : left = k := by omega
      exact ⟨_, by simp [readLoop_zero], moveReadLoop_zero _ _, hPc, by rw [huse, hleft]⟩
    · have hkeq : k = x.useSize := by omega
      have hnext : (b.consume k).ring = xs ++ (ys ++ [consumed x k]) := by
        have hall := (consume_ring hr (by omega) hring' hx).2 hkeq (by omega)
        simpa using hall
      have hzero : ∀ y ∈ ys ++ [consumed x k], y.useSize = 0 := by
        intro y hy
        rcases List.mem_append.mp hy with hy | hy
        · exact hys y hy
        · simp [List.mem_singleton.mp hy, hkeq]
      have hrest : left - k ≤ sumUse xs := by omega
      obtain ⟨b', hread, hmove, hPb, huse'⟩ := ih hPc hnext hzero hrest hfuel _
      exact ⟨b', hread, hmove, hPb, by omega⟩

end ReadLoops

/-- Either loop started on the whole ring. -/
theorem Good.readLoops_ring {b : Buffer} (h : b.Good) {left : ℕ} (hleft : left ≤ b.useSize) :
    ∃ b', readLoop (b.buffList.length + 1) b [] left = some (b.unread.take left, b') ∧
      moveReadLoop (b.buffList.length + 1) b left = some b' ∧ b'.Good ∧
      b'.unread = b.unread.drop left := by
  have hsum : left ≤ sumUse b.ring := by
    rw [sumUse_ring, ← h.sum]
    exact hleft
  have hlen : b.ring.length ≤ b.buffList.length + 1 := by simp [ring]
  -- what is gone from the size is gone from the front of the unread bytes
  have hstep (c : Buffer) (x : BufferNode) (zs : List BufferNode) (k : ℕ)
      (hc : c.Good ∧ c.useSize ≤ b.useSize ∧ c.unread = b.unread.drop (b.useSize - c.useSize))
      (hx : c.ring = x :: zs) (hk : k ≤ x.useSize) : (c.consume k).Good ∧ (c.consume k).useSize ≤ b.useSize ∧
        (c.consume k).unread = b.unread.drop (b.useSize - (c.consume k).useSize) := by
    obtain ⟨hg, hle, hunread⟩ := hc
    have hne : c.buffList ≠ [] := by
      intro hn
      simp [ring, hn] at hx
    have hnode : c.node c.rNodeIt = x := node_eq_head (hg.iters hne).2 hx
    obtain ⟨hg', huse, -⟩ := hg.consume hne hx hnode hk
    have hkle := hg.le_useSize hx hk
    refine ⟨hg', by omega, ?_⟩
    rw [consume_unread hg hne hx hnode hk, hunread, List.drop_drop]
    congr 1
    omega
  obtain ⟨b', hr, hm, ⟨hg, -, hu⟩, huse⟩ :=
    readLoops_run (fun c hc => hc.1.sum) (fun c hc hne => (hc.1.iters hne).2) hstep
      ⟨h, le_rfl, by simp⟩ (List.append_nil b.ring).symm (fun y hy => absurd hy List.not_mem_nil) hsum hlen []
  refine ⟨b', hr, hm, hg, ?_⟩
  rw [hu, huse]
  congr 1
  omega

/-- `ReadBuffer(char*, uint32)` hands out the first unread bytes and drops them. -/
theorem Good.readBuffer {b : Buffer} (h : b.Good) (size : ℕ) :
    ∃ b', b.readBuffer size = some (b.unread.take (min size b.useSize), b') ∧ b'.Good ∧
      b'.unread = b.unread.drop (min size b.useSize) := by
  have hmin : (if size > b.useSize then b.useSize else size) = min size b.useSize := by
    split_ifs <;> omega
  rw [Buffer.readBuffer]
  simp only [hmin]
  by_cases hnil : b.buffList = []
  · have hu : b.unread = [] := unread_nil (by simp [hnil])
    rw [if_pos (by rw [(h.ends hnil).2, hnil]; rfl), hu]
    exact ⟨b, by simp, h, by simp [hu]⟩
  · rw [if_neg (h.iters hnil).2.ne]
    obtain ⟨b', hr, _, hg, hu⟩ := h.readLoops_ring (Nat.min_le_right size b.useSize)
    exact ⟨b', hr, hg, hu⟩

theorem Good.moveReadPos {b : Buffer} (h : b.Good) (size : ℕ) :
    ∃ b', b.moveReadPos size = some b' ∧ b'.Good ∧
      b'.unread = b.unread.drop (min size b.useSize) := by
  have hmin : (if size > b.useSize then b.useSize else size) = min size b.useSize := by
    split_ifs <;> omega
  rw [Buffer.moveReadPos]
  simp only [hmin]
  by_cases hnil : b.buffList = []
  · have hu : b.unread = [] := unread_nil (by simp [hnil])
    rw [if_pos (by rw [(h.ends hnil).2, hnil]; rfl), hu]
    exact ⟨b, rfl, h, by simp [hu]⟩
  · rw [if_neg (h.iters hnil).2.ne]
    obtain ⟨b', _, hm, hg, hu⟩ := h.readLoops_ring (Nat.min_le_right size b.useSize)
    exact ⟨b', hm, hg, hu⟩

/-- The iovecs of `ReadBuffer(IOVEC_TYPE*, int, uint32)` show the first unread bytes. -/
theorem readIovLoop_bytes {b : Buffer} {xs ys : List BufferNode} {it : ℕ}
    (hit : it < b.buffList.length) (hring : b.buffList.rotate it = xs ++ ys) {size : ℕ}
    (hsize : size ≤ sumUse xs) (iovcnt : ℕ) :
    b.iovBytes (readIovLoop b iovcnt it size) =
        (xs.flatMap unreadNode).take (iovTotal (readIovLoop b iovcnt it size)) ∧
      iovTotal (readIovLoop b iovcnt it size) ≤ size := by
  induction iovcnt generalizing it xs ys size with
  | zero => simp [readIovLoop, iovBytes, iovTotal]
  | succ iovcnt ih =>
    rw [readIovLoop]
    rcases Nat.eq_zero_or_pos size with rfl | hpos
    · simp [iovBytes, iovTotal]
    rw [if_neg (by omega)]
    cases xs with
    | nil =>
      simp at hsize
      omega
    | cons x xs =>
      have hx : b.node it = x := node_eq_head hit hring
      have hmin : (if x.useSize > size then size else x.useSize) = min size x.useSize := by
        split_ifs <;> omega
      have hnext : b.buffList.rotate (next b.buffList.length it) = xs ++ (ys ++ [x]) := by
        rw [rotate_next_cons (List.cons_append ▸ hring), List.append_assoc]
      simp only [sumUse_cons] at hsize
      simp only [hx, hmin]
      obtain ⟨hb, ht⟩ := ih (next_lt hit) hnext (show size - min size x.useSize ≤ sumUse xs by omega)
      set rest := readIovLoop b iovcnt (next b.buffList.length it) (size - min size x.useSize)
      have hcons : iovTotal (⟨it, x.readCursor, min size x.useSize⟩ :: rest) =
          min size x.useSize + iovTotal rest := rfl
      have hbytes : b.iovBytes (⟨it, x.readCursor, min size x.useSize⟩ :: rest) =
          load x.buffer x.readCursor (min size x.useSize) ++ b.iovBytes rest := by
        simp [iovBytes, hx]
      rw [hcons, hbytes, hb]
      refine ⟨?_, by omega⟩
      have hload : load x.buffer x.readCursor (min size x.useSize) =
          (unreadNode x).take (min size x.useSize) :=
        (take_load _ _ (Nat.min_le_right size x.useSize)).symm
      rw [List.flatMap_cons, hload]
      rcases Nat.le_total x.useSize size with hle | hlt
      · have hlen : x.useSize = (unreadNode x).length := (unreadNode_length x).symm
        rw [Nat.min_eq_right hle, List.take_of_length_le hlen.ge, hlen,
          List.take_length_add_append]
      · have h0 : iovTotal rest = 0 := by omega
        rw [h0, Nat.min_eq_left hlt, List.take_zero, List.append_nil, Nat.add_zero,
          List.take_append_of_le_length (by simpa using hlt)]

theorem readBufferIov_bytes {b : Buffer} (hr : b.buffList ≠ [] → b.rNodeIt < b.buffList.length)
    (hsum : b.useSize ≤ sumUse b.buffList) (iovcnt size : ℕ) :
    b.iovBytes (b.readBufferIov iovcnt size) =
        b.unread.take (iovTotal (b.readBufferIov iovcnt size)) ∧
      iovTotal (b.readBufferIov iovcnt size) ≤ b.useSize := by
  rw [Buffer.readBufferIov]
  set want := if size > b.useSize then b.useSize else size with hwant
  have hle : want ≤ b.useSize := by
    rw [hwant]
    split_ifs <;> omega
  by_cases hnil : b.buffList = []
  · have h0 : want = 0 := by
      rw [hnil, sumUse_nil] at hsum
      omega
    cases iovcnt <;> simp [h0, readIovLoop, iovBytes, iovTotal]
  · have hw : want ≤ sumUse b.ring := by
      rw [sumUse_ring]
      exact hle.trans hsum
    obtain ⟨hb, ht⟩ := readIovLoop_bytes (hr hnil) (List.append_nil b.ring).symm hw iovcnt
    exact ⟨hb, ht.trans hle⟩

end Chaos.Buffer
