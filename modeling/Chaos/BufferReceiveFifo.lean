import Chaos.BufferTail
import Chaos.GuardedRuns

/-!
# The receive side of the buffer

Runs of `GetWriteBuffer`, a socket that fills the iovecs, `MoveWritePos`, and of `ReadBuffer`. The
iovecs and the cursor walk the ring in the same order, so together they pour the bytes over the nodes
from the write node on. `MoveWritePos` leaves the node it stopped in even when that node is not full;
when the ring comes round, the bytes put there would come before older ones.
-/
namespace Chaos.Buffer

open ByteMemory RingOrder Word32 GuardedRuns

/-- The room from the node the next byte goes to up to the read node. -/
def tailRoom (b : Buffer) : ℕ := (b.openTail.map nodeRoom).sum

structure RecvRun where
  buf : Buffer
  received : List Byte
  returned : List Byte

inductive RecvOp where
  | recv (iovcnt size : ℕ) (bytes : List Byte)
  | read (size : ℕ)

def RecvRun.start : RecvRun := ⟨empty, [], []⟩

def recvStep (s : RecvRun) : RecvOp → Option RecvRun
  | .recv iovcnt size bytes =>
    if size < word32 then
      match s.buf.getWriteBuffer iovcnt size with
      | none => none
      | some (iov, b) =>
        if bytes.length ≤ iovTotal iov then
          match (fillIov b iov bytes).moveWritePos bytes.length with
          | none => none
          | some b => some { s with buf := b, received := s.received ++ bytes }
        else none
    else none
  | .read size =>
    if size < word32 then
      match s.buf.readBuffer size with
      | none => none
      | some (out, b) => some { s with buf := b, returned := s.returned ++ out }
    else none

/-- A receive that brings anything finds, once the ring has room for what it asked, a free tail with
room for what came. -/
def recvOk (s : RecvRun) : RecvOp → Prop
  | .recv iovcnt size bytes => bytes = [] ∨ match s.buf.reserver (writeSize iovcnt size) with
    | some (true, b) =>
      b.TailFree ∧ bytes.length ≤ b.tailRoom ∧ b.useSize + bytes.length < word32
    | _ => True
  | _ => True

instance (s : RecvRun) (op : RecvOp) : Decidable (recvOk s op) := by
  unfold recvOk
  split <;> try infer_instance
  split <;> infer_instance

/-! ## Pouring bytes over a list of nodes -/

def loadNode (n : BufferNode) (bytes : List Byte) : BufferNode :=
  { n with buffer := store n.buffer n.useSize bytes }

def growNode (n : BufferNode) (k : ℕ) : BufferNode := { n with useSize := n.useSize + k }

/-- What the iovecs do to the nodes. -/
def loadAll : List BufferNode → List Byte → List BufferNode
  | [], _ => []
  | n :: l, bytes =>
    loadNode n (bytes.take (nodeRoom n)) :: loadAll l (bytes.drop (nodeRoom n))

/-- What the cursor does to them. -/
def growAll : List BufferNode → ℕ → List BufferNode
  | [], _ => []
  | n :: l, k => growNode n (min k (nodeRoom n)) :: growAll l (k - min k (nodeRoom n))

def pour (l : List BufferNode) (bytes : List Byte) : List BufferNode :=
  growAll (loadAll l bytes) bytes.length

def roomSum (l : List BufferNode) : ℕ := (l.map nodeRoom).sum

@[simp] theorem roomSum_cons (n : BufferNode) (l : List BufferNode) :
    roomSum (n :: l) = nodeRoom n + roomSum l := rfl

@[simp] theorem loadNode_nil (n : BufferNode) : loadNode n [] = n := by simp [loadNode]

@[simp] theorem loadAll_nil (l : List BufferNode) : loadAll l [] = l := by
  induction l with
  | nil => rfl
  | cons n l ih => simp [loadAll, ih]

@[simp] theorem growAll_zero (l : List BufferNode) : growAll l 0 = l := by
  induction l with
  | nil => rfl
  | cons n l ih => simp [growAll, growNode, ih]

@[simp] theorem length_loadAll (l : List BufferNode) (bytes : List Byte) :
    (loadAll l bytes).length = l.length := by
  induction l generalizing bytes with
  | nil => rfl
  | cons n l ih => simp [loadAll, ih]

@[simp] theorem length_growAll (l : List BufferNode) (k : ℕ) : (growAll l k).length = l.length := by
  induction l generalizing k with
  | nil => rfl
  | cons n l ih => simp [growAll, ih]

@[simp] theorem nodeRoom_loadNode (n : BufferNode) (bytes : List Byte) :
    nodeRoom (loadNode n bytes) = nodeRoom n := rfl

theorem roomSum_loadAll (l : List BufferNode) (bytes : List Byte) :
    roomSum (loadAll l bytes) = roomSum l := by
  induction l generalizing bytes with
  | nil => rfl
  | cons n l ih => simp [loadAll, ih]

theorem sumUse_loadAll (l : List BufferNode) (bytes : List Byte) :
    sumUse (loadAll l bytes) = sumUse l := by
  induction l generalizing bytes with
  | nil => rfl
  | cons n l ih => simp [loadAll, loadNode, ih]

theorem pour_cons (n : BufferNode) (l : List BufferNode) (bytes : List Byte) :
    pour (n :: l) bytes =
      filled n (bytes.take (nodeRoom n)) :: pour l (bytes.drop (nodeRoom n)) := by
  have hlen : bytes.length - min bytes.length (nodeRoom n) = (bytes.drop (nodeRoom n)).length := by
    rw [List.length_drop]
    omega
  simp only [pour, loadAll, growAll, nodeRoom_loadNode, hlen]
  congr 1
  simp [growNode, loadNode, filled, Nat.min_comm]

theorem sumUse_growAll {l : List BufferNode} {k : ℕ} (hk : k ≤ roomSum l) :
    sumUse (growAll l k) = sumUse l + k := by
  induction l generalizing k with
  | nil =>
    have h0 : k = 0 := by simpa [roomSum] using hk
    simp [growAll, h0]
  | cons n l ih =>
    simp only [roomSum_cons] at hk
    simp only [growAll, sumUse_cons, growNode, ih (show k - min k (nodeRoom n) ≤ roomSum l by omega)]
    omega

theorem sumUse_pour {l : List BufferNode} {bytes : List Byte} (h : bytes.length ≤ roomSum l) :
    sumUse (pour l bytes) = sumUse l + bytes.length := by
  rw [pour, sumUse_growAll (by rwa [roomSum_loadAll]), sumUse_loadAll]

/-- Where no node with room is partly read or comes before an unread byte, the bytes poured follow
the unread ones. -/
theorem pour_unread {l : List BufferNode} {bytes : List Byte} (hgood : ∀ m ∈ l, GoodNode m)
    (hroom : bytes.length ≤ roomSum l) (hcursor : ∀ m ∈ l, 0 < nodeRoom m → m.readCursor = 0)
    (hbehind : l.Pairwise fun m k => 0 < nodeRoom m → k.useSize = 0) :
    (∀ m ∈ pour l bytes, GoodNode m) ∧
      (pour l bytes).flatMap unreadNode = l.flatMap unreadNode ++ bytes := by
  induction l generalizing bytes with
  | nil =>
    have hb : bytes = [] := by simpa [roomSum] using hroom
    simp [pour, loadAll, hb]
  | cons n l ih =>
    rw [List.pairwise_cons] at hbehind
    obtain ⟨hn, hbehind⟩ := hbehind
    have hroom' : (bytes.drop (nodeRoom n)).length ≤ roomSum l := by
      rw [roomSum_cons] at hroom
      rw [List.length_drop]
      omega
    obtain ⟨hg, hu⟩ := ih (fun m hm => hgood m (by simp [hm])) hroom'
      (fun m hm => hcursor m (by simp [hm])) hbehind
    rw [pour_cons]
    have hfilled : GoodNode (filled n (bytes.take (nodeRoom n))) ∧
        unreadNode (filled n (bytes.take (nodeRoom n))) ++ l.flatMap unreadNode =
          unreadNode n ++ l.flatMap unreadNode ++ bytes.take (nodeRoom n) := by
      rcases Nat.eq_zero_or_pos (nodeRoom n) with h0 | hpos
      · simp only [h0, List.take_zero, filled_nil, List.append_nil, and_true]
        exact hgood n (by simp)
      · have hc := hcursor n (by simp) hpos
        have hrest : ∀ k ∈ l, k.useSize = 0 := fun k hk => hn k hk hpos
        refine ⟨(hgood n (by simp)).filled hc (List.length_take_le _ _), ?_⟩
        rw [unreadNode_filled hc, flatMap_unread_nil hrest, List.append_nil, List.append_nil]
    constructor
    · intro m hm
      rcases List.mem_cons.mp hm with rfl | hm
      · exact hfilled.1
      · exact hg m hm
    · rw [List.flatMap_cons, hu, List.flatMap_cons, ← List.append_assoc, hfilled.2,
        List.append_assoc, List.take_append_drop]

theorem goodNode_loadAll {l : List BufferNode} (h : ∀ m ∈ l, GoodNode m) (bytes : List Byte) :
    ∀ m ∈ loadAll l bytes, GoodNode m := by
  induction l generalizing bytes with
  | nil => exact h
  | cons n l ih =>
    intro m hm
    rcases List.mem_cons.mp hm with rfl | hm
    · obtain ⟨ht, hin, hd⟩ := h n (by simp)
      exact ⟨ht, hin, hd⟩
    · exact ih (fun k hk => h k (by simp [hk])) _ m hm

theorem GoodNode.le_total {n : BufferNode} (h : GoodNode n) : n.useSize ≤ n.totalSize := by
  obtain ⟨ht, hin, _⟩ := h
  omega

/-! ## Filling the iovecs -/

theorem setNode_node (b : Buffer) (i : ℕ) : b.setNode i (b.node i) = b := by
  rcases Nat.lt_or_ge i b.buffList.length with hi | hi
  · exact setNode_self hi
  · simp [setNode, List.set_eq_of_length_le hi]

theorem node_setNode (b : Buffer) (i j : ℕ) (n : BufferNode) :
    (b.setNode i n).node j = b.node j ∨ i = j ∧ (b.setNode i n).node j = n := by
  simp only [node, setNode]
  simp only [List.getD_eq_getElem?_getD, List.getElem?_set]
  split_ifs with hij hi
  · exact Or.inr ⟨hij, rfl⟩
  · left
    rw [List.getElem?_eq_none (by omega)]
  · exact Or.inl rfl

theorem fillIov_done (b : Buffer) (iov : List Iovec) : fillIov b iov [] = b := by
  induction iov with
  | nil => rfl
  | cons v iov ih =>
    simp only [fillIov, List.take_nil, store_nil, List.drop_nil]
    rw [show b.setNode v.node _ = b from setNode_node b v.node, ih]

/-- The iovecs depend on the sizes only. -/
theorem getWriteIovLoop_congr {b c : Buffer} (hlen : c.buffList.length = b.buffList.length)
    (h : ∀ i, (c.node i).useSize = (b.node i).useSize ∧ (c.node i).totalSize = (b.node i).totalSize)
    (iovcnt it size : ℕ) : getWriteIovLoop c iovcnt it size = getWriteIovLoop b iovcnt it size := by
  induction iovcnt generalizing it size with
  | zero => rfl
  | succ iovcnt ih => simp only [getWriteIovLoop, (h it).1, (h it).2, hlen, ih]

theorem iovTotal_le (b : Buffer) (iovcnt it size : ℕ) :
    iovTotal (getWriteIovLoop b iovcnt it size) ≤ size := by
  induction iovcnt generalizing it size with
  | zero => simp [getWriteIovLoop, iovTotal]
  | succ iovcnt ih =>
    rw [getWriteIovLoop]
    split_ifs with h0
    · simp [iovTotal]
    · dsimp only
      set len := if (b.node it).totalSize - (b.node it).useSize > size then size
        else (b.node it).totalSize - (b.node it).useSize with hl
      have hle : len ≤ size := by
        rw [hl]
        split_ifs <;> omega
      have hrest := ih (next b.buffList.length it) (size - len)
      simp only [iovTotal, List.map_cons, List.sum_cons] at hrest ⊢
      omega

section Walk
variable {b : Buffer} {pre l : List BufferNode} {n : BufferNode} {it iovcnt size : ℕ}
  {bytes : List Byte}

/-- The first iovec and the ones after it. -/
theorem getWriteIovLoop_succ (hx : b.node it = n) (hsize : 0 < size) :
    getWriteIovLoop b (iovcnt + 1) it size = ⟨it, n.useSize, min (nodeRoom n) size⟩ ::
      getWriteIovLoop b iovcnt (next b.buffList.length it) (size - min (nodeRoom n) size) := by
  have hmin : (if n.totalSize - n.useSize > size then size else n.totalSize - n.useSize) =
      min (nodeRoom n) size := by
    rw [nodeRoom]
    split_ifs <;> omega
  simp only [getWriteIovLoop, if_neg (Nat.ne_of_gt hsize), hx, hmin]

/-- Bytes that fit the iovecs fit the first node as far as its room goes. -/
theorem take_iov {room rest : ℕ} (hrest : rest ≤ size - min room size)
    (hb : bytes.length ≤ min room size + rest) :
    bytes.take (min room size) = bytes.take room ∧ bytes.drop (min room size) = bytes.drop room := by
  rcases Nat.le_total room size with h | h
  · simp [Nat.min_eq_left h]
  · rw [Nat.min_eq_right h] at hrest hb ⊢
    constructor
    · rw [List.take_of_length_le (by omega), List.take_of_length_le (by omega)]
    · rw [List.drop_eq_nil_of_le (by omega), List.drop_eq_nil_of_le (by omega)]

/-- The cells of the walk after the first one, when there are any. -/
theorem offset_walk (hr : b.rNodeIt < b.buffList.length) (hring : b.ring = pre ++ n :: l)
    (hpre : pre.length = offset b.buffList.length b.rNodeIt it) (hl : l ≠ []) (n' : BufferNode) :
    (pre ++ [n']).length = offset b.buffList.length b.rNodeIt (next b.buffList.length it) := by
  have hlen := congrArg List.length hring
  have hpos := List.length_pos_iff.mpr hl
  simp only [ring, List.length_rotate, List.length_append, List.length_cons] at hlen
  rw [offset_next hr (by omega), ← hpre]
  simp

end Walk

/-- The socket pours its bytes over the nodes; the induction is on those nodes. -/
theorem fillIov_ring {b : Buffer} {pre l : List BufferNode} {it iovcnt size : ℕ}
    {bytes : List Byte} (hr : b.rNodeIt < b.buffList.length) (hit : it < b.buffList.length)
    (hring : b.ring = pre ++ l) (hpre : pre.length = offset b.buffList.length b.rNodeIt it)
    (hroom : bytes.length ≤ roomSum l)
    (htotal : bytes.length ≤ iovTotal (getWriteIovLoop b iovcnt it size)) :
    ∃ nodes, fillIov b (getWriteIovLoop b iovcnt it size) bytes = { b with buffList := nodes } ∧
      nodes.length = b.buffList.length ∧ nodes.rotate b.rNodeIt = pre ++ loadAll l bytes := by
  induction l generalizing b pre it iovcnt size bytes with
  | nil =>
    have hb : bytes = [] := by simpa [roomSum] using hroom
    rw [hb, fillIov_done]
    exact ⟨b.buffList, rfl, rfl, hring⟩
  | cons n l ih =>
    rcases List.eq_nil_or_concat bytes with rfl | ⟨_, _, hcat⟩
    · rw [fillIov_done, loadAll_nil]
      exact ⟨b.buffList, rfl, rfl, hring⟩
    have hpos : 0 < bytes.length := by simp [hcat]
    have hx : b.node it = n := node_of_ring hr hit hring hpre
    have hsize : 0 < size := hpos.trans_le (htotal.trans (iovTotal_le b iovcnt it size))
    cases iovcnt with
    | zero =>
      have h0 : bytes.length ≤ 0 := htotal
      omega
    | succ iovcnt =>
    set rest := getWriteIovLoop b iovcnt (next b.buffList.length it)
      (size - min (nodeRoom n) size) with hrest
    rw [getWriteIovLoop_succ hx hsize] at htotal ⊢
    have hb : bytes.length ≤ min (nodeRoom n) size + iovTotal rest := htotal
    obtain ⟨htake, hdrop⟩ := take_iov (iovTotal_le b iovcnt _ _) hb
    set c := b.setNode it (loadNode n (bytes.take (nodeRoom n))) with hc
    have hclen : c.buffList.length = b.buffList.length := by simp [hc, setNode]
    have hcring : c.ring = (pre ++ [loadNode n (bytes.take (nodeRoom n))]) ++ l := by
      rw [hc, ring_setNode hr hit hring hpre, List.append_assoc]
      rfl
    have hstep : fillIov b (⟨it, n.useSize, min (nodeRoom n) size⟩ :: rest) bytes =
        fillIov c rest (bytes.drop (nodeRoom n)) := by
      simp only [fillIov, hx, htake, hdrop]
      rfl
    have hsame : rest = getWriteIovLoop c iovcnt (next b.buffList.length it)
        (size - min (nodeRoom n) size) := by
      refine (getWriteIovLoop_congr hclen (fun i => ?_) _ _ _).symm
      rcases node_setNode b it i (loadNode n (bytes.take (nodeRoom n))) with h | ⟨hi, h⟩
      · rw [hc, h]
        exact ⟨rfl, rfl⟩
      · rw [hc, h, ← hi, hx]
        exact ⟨rfl, rfl⟩
    rw [hstep, loadAll]
    cases l with
    | nil =>
      have hnil : bytes.drop (nodeRoom n) = [] := by
        apply List.drop_eq_nil_of_le
        simpa [roomSum] using hroom
      rw [hnil, fillIov_done]
      rw [List.append_nil] at hcring
      exact ⟨c.buffList, rfl, hclen, hcring⟩
    | cons m l =>
      have hleft : (bytes.drop (nodeRoom n)).length ≤ iovTotal rest := by
        rw [← hdrop, List.length_drop]
        omega
      have hroom' : (bytes.drop (nodeRoom n)).length ≤ roomSum (m :: l) := by
        rw [roomSum_cons] at hroom
        rw [List.length_drop]
        omega
      have hpre' := offset_walk hr hring hpre (List.cons_ne_nil m l)
        (loadNode n (bytes.take (nodeRoom n)))
      have hit' : next b.buffList.length it < c.buffList.length := by
        rw [hclen]
        exact next_lt hit
      obtain ⟨nodes, hfill, hnlen, hnring⟩ := @ih c _ (next b.buffList.length it) iovcnt
        (size - min (nodeRoom n) size) _ (hclen ▸ hr) hit' hcring (by rw [hclen]; exact hpre')
        hroom' (hsame ▸ hleft)
      refine ⟨nodes, ?_, hnlen.trans hclen, ?_⟩
      · rw [hsame, hfill]
        rfl
      · rw [List.append_assoc] at hnring
        exact hnring

/-- The cursor takes in what was poured, where the comparison does not wrap at the node it starts from: it
wraps at no later node then. -/
theorem moveWriteLoop_ring {b : Buffer} {pre l : List BufferNode} {k : ℕ}
    (hr : b.rNodeIt < b.buffList.length) (hw : b.wNodeIt < b.buffList.length)
    (hring : b.ring = pre ++ l) (hpre : pre.length = offset b.buffList.length b.rNodeIt b.wNodeIt)
    (hroom : k ≤ roomSum l) (hin : ∀ m ∈ l, 0 < m.totalSize ∧ m.useSize ≤ m.totalSize)
    (hsum : sumUse l + k ≤ word32) (hwrap : ∀ m ∈ l.head?, m.useSize + k < word32)
    (hsmall : b.useSize < word32) {fuel : ℕ} (hfuel : l.length ≤ fuel) :
    ∃ b', moveWriteLoop fuel b k = some b' ∧ b'.ring = pre ++ growAll l k ∧
      b'.buffList.length = b.buffList.length ∧ b'.rNodeIt = b.rNodeIt ∧
      b'.wNodeIt < b.buffList.length ∧ b'.useSize = add32 b.useSize k := by
  have hdone (c : Buffer) (f : ℕ) : moveWriteLoop f c 0 = some c := by
    cases f <;> simp [moveWriteLoop]
  induction l generalizing b pre k fuel with
  | nil =>
    have hk : k = 0 := by simpa [roomSum] using hroom
    subst hk
    exact ⟨b, hdone b fuel, hring, rfl, rfl, hw, (add32_zero hsmall).symm⟩
  | cons n l ih =>
    rcases Nat.eq_zero_or_pos k with rfl | hpos
    · rw [growAll_zero]
      exact ⟨b, hdone b fuel, hring, rfl, rfl, hw, (add32_zero hsmall).symm⟩
    cases fuel with
    | zero => simp at hfuel
    | succ fuel =>
    have hx : b.node b.wNodeIt = n := node_of_ring hr hw hring hpre
    rw [sumUse_cons] at hsum
    rw [roomSum_cons] at hroom
    obtain ⟨htotal, hn⟩ := hin n (by simp)
    have hadd : (if add32 n.useSize k > n.totalSize then n.totalSize - n.useSize else k) =
        min k (nodeRoom n) := by
      rw [add32_of_lt (hwrap n rfl)]
      rw [nodeRoom]
      split_ifs <;> omega
    set c := ({ b with useSize := add32 b.useSize (min k (nodeRoom n)) }.setNode b.wNodeIt
      (growNode n (min k (nodeRoom n)))).getNextWNodeIt with hc
    have huse : add32 n.useSize (min k (nodeRoom n)) = n.useSize + min k (nodeRoom n) := by
      have hfirst := hwrap n rfl
      exact add32_of_lt (by omega)
    have hstep : moveWriteLoop (fuel + 1) b k = moveWriteLoop fuel c (k - min k (nodeRoom n)) := by
      simp only [moveWriteLoop, if_pos hpos, hx, hadd, huse]
      rfl
    have hclen : c.buffList.length = b.buffList.length := by simp [hc, setNode, getNextWNodeIt]
    have hcw : c.wNodeIt = next b.buffList.length b.wNodeIt := by
      simp [hc, setNode, getNextWNodeIt]
    have hcring : c.ring = (pre ++ [growNode n (min k (nodeRoom n))]) ++ l := by
      have hset := ring_setNode hr hw hring hpre (growNode n (min k (nodeRoom n)))
      rw [List.append_assoc]
      exact hset
    have hcw' : c.wNodeIt < c.buffList.length := by
      rw [hcw, hclen]
      exact next_lt hw
    have hrest : min k (nodeRoom n) + (k - min k (nodeRoom n)) = k := by omega
    rw [hstep, growAll]
    cases l with
    | nil =>
      have h0 : k - min k (nodeRoom n) = 0 := by
        simp [roomSum] at hroom
        omega
      rw [h0, hdone]
      rw [List.append_nil] at hcring
      refine ⟨c, rfl, hcring, hclen, rfl, hclen ▸ hcw', ?_⟩
      show add32 b.useSize (min k (nodeRoom n)) = add32 b.useSize k
      rw [show min k (nodeRoom n) = k by omega]
    | cons m l =>
      have hpre' := offset_walk hr hring hpre (List.cons_ne_nil m l)
        (growNode n (min k (nodeRoom n)))
      -- whatever is left when this node is full is less than what the others leave free
      have hwrap' : ∀ m' ∈ (m :: l).head?, m'.useSize + (k - min k (nodeRoom n)) < word32 := by
        intro m' hm'
        obtain rfl := Option.some.inj hm'
        have hfirst := hwrap n rfl
        rw [sumUse_cons] at hsum
        simp only [nodeRoom]
        omega
      obtain ⟨b', hb', hring', hlen', hr', hw', huse'⟩ := @ih c _ (k - min k (nodeRoom n))
        (hclen ▸ hr) hcw' hcring (by rw [hclen, hcw]; exact hpre') (by omega)
        (fun m hm => hin m (by simp [hm])) (by omega) hwrap' (add32_lt _ _) fuel (by simpa using hfuel)
      refine ⟨b', hb', ?_, hlen'.trans hclen, hr', hclen ▸ hw', ?_⟩
      · rw [List.append_assoc] at hring'
        exact hring'
      · rw [huse', show c.useSize = add32 b.useSize (min k (nodeRoom n)) from rfl, add32_add, hrest]

/-- Full nodes, one that is read from its start and drained ones behind it: what is poured over them comes
after what is there. -/
theorem pour_tail {full ns : List BufferNode} {n : BufferNode} {bytes : List Byte}
    (hgood : ∀ m ∈ full ++ n :: ns, GoodNode m) (hfull : ∀ m ∈ full, m.totalSize = m.useSize)
    (hcursor : n.readCursor = 0) (hrest : ∀ m ∈ ns, m.useSize = 0)
    (hroom : bytes.length ≤ roomSum (full ++ n :: ns)) :
    (∀ m ∈ pour (full ++ n :: ns) bytes, GoodNode m) ∧
      (pour (full ++ n :: ns) bytes).flatMap unreadNode =
        (full ++ n :: ns).flatMap unreadNode ++ bytes := by
  have hfullRoom : ∀ m ∈ full, nodeRoom m = 0 := by
    intro m hm
    rw [nodeRoom]
    rw [hfull m hm, Nat.sub_self]
  have hcursors : ∀ m ∈ full ++ n :: ns, 0 < nodeRoom m → m.readCursor = 0 := by
    intro m hm hpos
    rcases List.mem_append.mp hm with hm | hm
    · exact absurd (hfullRoom m hm) (Nat.ne_of_gt hpos)
    · rcases List.mem_cons.mp hm with rfl | hm'
      · exact hcursor
      · exact (hgood m (by simp [hm'])).drained (hrest m hm')
  have hbehind : (full ++ n :: ns).Pairwise fun m k => 0 < nodeRoom m → k.useSize = 0 := by
    refine List.pairwise_append.mpr ⟨?_, ?_, ?_⟩
    · exact List.pairwise_of_forall_mem_list fun m hm k _ hpos =>
        absurd (hfullRoom m hm) (Nat.ne_of_gt hpos)
    · refine List.pairwise_cons.mpr ⟨fun k hk _ => hrest k hk, ?_⟩
      exact List.pairwise_of_forall_mem_list fun m _ k hk _ => hrest k hk
    · exact fun m hm k _ hpos => absurd (hfullRoom m hm) (Nat.ne_of_gt hpos)
  exact pour_unread hgood hroom hcursors hbehind

/-- Receiving into the free tail appends the bytes. -/
theorem Good.receive_tail {b : Buffer} (h : b.Good) (ht : b.TailFree) {bytes : List Byte}
    {iovcnt size : ℕ} (hroom : bytes.length ≤ b.tailRoom)
    (hsmall : b.useSize + bytes.length < word32) (hleft : size ≤ b.getLeftSize)
    (htotal : bytes.length ≤ iovTotal (getWriteIovLoop b iovcnt b.wNodeIt size)) :
    ∃ b', (fillIov b (getWriteIovLoop b iovcnt b.wNodeIt size) bytes).moveWritePos bytes.length =
      some b' ∧ b'.Good ∧ b'.unread = b.unread ++ bytes := by
  obtain ⟨pre, full, n, ns, hring, hopen, hpre, hne, hfull, hn, hcursor, hrest⟩ := h.tail ht
  obtain ⟨hw, hr⟩ := h.iters hne
  set l := full ++ n :: ns with hl
  have hgood : ∀ m ∈ l, GoodNode m := by
    intro m hm
    have hm' : m ∈ b.ring := by simp [hring, hm]
    exact h.nodes m (List.mem_rotate.mp hm')
  have hroom' : bytes.length ≤ roomSum l := by
    rw [tailRoom, hopen] at hroom
    refine hroom.trans ?_
    simp [hl, roomSum]
  obtain ⟨hpg, hpu⟩ := pour_tail hgood hfull hcursor hrest hroom'
  obtain ⟨nodes, hfill, hnlen, hnring⟩ := fillIov_ring hr hw hring hpre hroom' htotal
  rw [hfill]
  set c : Buffer := { b with buffList := nodes } with hc
  have hmove : c.moveWritePos bytes.length = moveWriteLoop (c.buffList.length + 1) c bytes.length := by
    have hle : bytes.length ≤ c.getLeftSize := by
      have h1 := htotal.trans (iovTotal_le b iovcnt b.wNodeIt size)
      have h2 : c.getLeftSize = b.getLeftSize := by simp only [getLeftSize, hc, hnlen]
      omega
    rw [moveWritePos]
    congr 1
    split_ifs <;> omega
  have hsumUse : sumUse (loadAll l bytes) ≤ c.useSize := by
    have hs := h.sum
    rw [← sumUse_ring, hring, sumUse_append] at hs
    rw [sumUse_loadAll]
    show _ ≤ b.useSize
    omega
  have hfuel : (loadAll l bytes).length ≤ c.buffList.length + 1 := by
    have hlen := congrArg List.length hring
    simp only [ring, List.length_rotate, List.length_append] at hlen
    rw [length_loadAll, show c.buffList.length = b.buffList.length from hnlen]
    omega
  have hnodes : ∀ m ∈ loadAll l bytes, 0 < m.totalSize ∧ m.useSize ≤ m.totalSize := by
    intro m hm
    have hnode := goodNode_loadAll hgood bytes m hm
    exact ⟨hnode.total ▸ by decide, hnode.le_total⟩
  have hhead : ∀ m ∈ (loadAll l bytes).head?, m.useSize + bytes.length < word32 := by
    intro m hm
    have hle : m.useSize ≤ sumUse (loadAll l bytes) :=
      List.single_le_sum (by simp) _ (List.mem_map_of_mem (List.mem_of_mem_head? hm))
    have huse : c.useSize = b.useSize := rfl
    omega
  have hcsmall : c.useSize + bytes.length < word32 := hsmall
  obtain ⟨b', hb', hring', hlen', hr', hw', huse'⟩ := moveWriteLoop_ring (b := c)
    (hnlen ▸ hr) (hnlen ▸ hw) hnring (by rw [hpre, hnlen]) (by rwa [roomSum_loadAll])
    hnodes (by omega) hhead (by omega) hfuel
  have huse : b'.useSize = b.useSize + bytes.length := huse'.trans (add32_of_lt hcsmall)
  refine ⟨b', hmove.trans hb', ?_, ?_⟩
  · refine h.replaceTail hring hring' hpg ?_ ?_ hne (hlen'.trans hnlen) (hnlen ▸ hw') hr'
    · rw [show growAll (loadAll l bytes) bytes.length = pour l bytes from rfl, sumUse_pour hroom', huse]
      omega
    · rw [huse]
      exact hsmall
  · rw [unread, hring', unread, hring, List.flatMap_append, List.flatMap_append, List.append_assoc]
    exact congrArg _ hpu

/-- One receive: the bytes the socket puts into the iovecs come last among the unread ones. -/
theorem Good.receive {b : Buffer} (h : b.Good) {iovcnt size : ℕ} {bytes : List Byte}
    (hok : bytes = [] ∨ match b.reserver (writeSize iovcnt size) with
      | some (true, b) => b.TailFree ∧ bytes.length ≤ b.tailRoom ∧ b.useSize + bytes.length < word32
      | _ => True) :
    ∃ iov b₁, b.getWriteBuffer iovcnt size = some (iov, b₁) ∧ (bytes.length ≤ iovTotal iov →
      ∃ b', (fillIov b₁ iov bytes).moveWritePos bytes.length = some b' ∧ b'.Good ∧
        b'.unread = b.unread ++ bytes) := by
  obtain ⟨ok, b₁, hres, h₁, hun, _, hleft⟩ := h.reserver (writeSize iovcnt size)
  rw [hres] at hok
  rw [← hun]
  have hnil (iov : List Iovec) (hb : bytes = []) :
      ∃ b', (fillIov b₁ iov bytes).moveWritePos bytes.length = some b' ∧ b'.Good ∧
        b'.unread = b₁.unread ++ bytes := by
    subst hb
    refine ⟨b₁, ?_, h₁, (List.append_nil _).symm⟩
    simp [fillIov_done, moveWritePos, moveWriteLoop]
  cases ok with
  | false =>
    refine ⟨[], b₁, ?_, ?_⟩
    · simp only [getWriteBuffer, hres]
    · intro htotal
      exact hnil [] (List.eq_nil_of_length_eq_zero (Nat.le_zero.mp htotal))
  | true =>
    refine ⟨getWriteIovLoop b₁ iovcnt b₁.wNodeIt (writeSize iovcnt size), b₁, ?_, ?_⟩
    · simp only [getWriteBuffer, hres]
    · intro htotal
      rcases hok with hb | ⟨ht, hroom, hsmall⟩
      · exact hnil _ hb
      · exact h₁.receive_tail ht hroom hsmall (hleft rfl) htotal

/-! ## Runs -/

structure RecvInv (s : RecvRun) : Prop where
  good : s.buf.Good
  stream : s.returned ++ s.buf.unread = s.received

theorem recvInv_start : RecvInv .start := by
  refine ⟨good_empty, ?_⟩
  have hu : empty.unread = [] := unread_nil rfl
  simp [RecvRun.start, hu]

/-- The step lemma: what a guarded receive brings comes last, what a read returns comes first. -/
theorem recvInv_step {s t : RecvRun} {op : RecvOp} (h : RecvInv s) (hok : recvOk s op)
    (ht : recvStep s op = some t) : RecvInv t := by
  obtain ⟨hg, hstream⟩ := h
  cases op with
  | recv iovcnt size bytes =>
    obtain ⟨iov, b₁, hiov, hmove⟩ := hg.receive hok
    simp only [recvStep, hiov, Option.ite_none_right_eq_some] at ht
    obtain ⟨_, htotal, ht⟩ := ht
    obtain ⟨b', hb', hg', hu⟩ := hmove htotal
    rw [hb', Option.some.injEq] at ht
    subst ht
    refine ⟨hg', ?_⟩
    simp only [hu, ← List.append_assoc, hstream]
  | read size =>
    obtain ⟨b', hb', hg', hu⟩ := hg.readBuffer size
    simp only [recvStep, hb', Option.ite_none_right_eq_some, Option.some.injEq] at ht
    obtain ⟨_, rfl⟩ := ht
    refine ⟨hg', ?_⟩
    simp only [hu, List.append_assoc, List.take_append_drop, hstream]

/-- Every operation that is called as the code calls it returns. -/
theorem recvStep_isSome {s : RecvRun} {op : RecvOp} (h : RecvInv s) (hok : recvOk s op)
    (hcall : match op with
      | .recv iovcnt size bytes => size < word32 ∧
          ∀ iov b, s.buf.getWriteBuffer iovcnt size = some (iov, b) → bytes.length ≤ iovTotal iov
      | .read size => size < word32) :
    (recvStep s op).isSome := by
  cases op with
  | recv iovcnt size bytes =>
    obtain ⟨hsize, hfits⟩ := hcall
    obtain ⟨iov, b₁, hiov, hmove⟩ := h.good.receive hok
    obtain ⟨b', hb', _⟩ := hmove (hfits iov b₁ hiov)
    simp [recvStep, hiov, hb', hsize, hfits iov b₁ hiov]
  | read size =>
    obtain ⟨b', hb', _⟩ := h.good.readBuffer size
    simp [recvStep, hb', show size < word32 from hcall]

/-- In a run whose receives all meet `recvOk`, the bytes returned and the bytes still readable are the
bytes received, and one `ReadBuffer` of everything returns what is still readable. -/
theorem receive_fifo {ops : List RecvOp} {s : RecvRun} (hg : Guarded recvStep recvOk .start ops)
    (hs : exec recvStep .start ops = some s) :
    s.returned ++ s.buf.unread = s.received ∧
      ∃ b, s.buf.readBuffer s.buf.useSize = some (s.buf.unread, b) := by
  have hinv : RecvInv s := invariant_of_guarded (fun _ _ _ => recvInv_step) recvInv_start hg hs
  obtain ⟨b, hb, _, _⟩ := hinv.good.readBuffer s.buf.useSize
  refine ⟨hinv.stream, b, ?_⟩
  rw [hb, Nat.min_self, hinv.good.sum, ← unread_length, List.take_length]

/-- A receive over two nodes, a read that drains the first, and a receive into it. -/
def recvSample : List RecvOp :=
  [.recv 2 8192 (List.replicate 5000 1), .read 4100, .recv 8 4000 (List.replicate 200 2), .read 300,
    .recv 1 9 [], .read 800]

def recvSampleEnd : RecvRun := (exec recvStep .start recvSample).get (by decide +kernel)

theorem receive_fifo_sample :
    recvSampleEnd.returned ++ recvSampleEnd.buf.unread = recvSampleEnd.received ∧
      ∃ b, recvSampleEnd.buf.readBuffer recvSampleEnd.buf.useSize =
        some (recvSampleEnd.buf.unread, b) :=
  receive_fifo (show Guarded recvStep recvOk .start recvSample by decide +kernel)
    (Option.some_get _).symm

/-- Three short receives over two nodes: the third byte lands in front of the second. -/
theorem receive_not_fifo :
    ¬ ∀ ops s, exec recvStep .start ops = some s → s.returned ++ s.buf.unread = s.received := by
  intro h
  have hrun := h [.recv 2 8192 [1], .recv 2 100 [2], .recv 2 100 [3]] _
    (Option.some_get (by decide +kernel)).symm
  revert hrun
  decide +kernel

end Chaos.Buffer
