import Chaos.BufferReceiveFifo
import Chaos.BufferSendFifo

/-!
# Sizes and termination of the buffer

`Sized` is what every operation keeps, whatever is read and written: no node holds more than its size, and
`m_useSize` is the sum of what the nodes hold, as far as 32 bits show it. From it every loop ends.
-/
namespace Chaos.Buffer

open ByteMemory RingOrder Word32 GuardedRuns

def SizedNode (n : BufferNode) : Prop := n.totalSize = bufferInitSize ∧ n.useSize ≤ bufferInitSize

structure Sized (b : Buffer) : Prop where
  nodes : ∀ n ∈ b.buffList, SizedNode n
  sum : b.useSize = sumUse b.buffList % word32
  count : b.buffList.length ≤ 1048576
  ends : b.buffList = [] → b.wNodeIt = 0 ∧ b.rNodeIt = 0
  iters : b.buffList ≠ [] → b.wNodeIt < b.buffList.length ∧ b.rNodeIt < b.buffList.length

theorem sized_empty : Sized empty :=
  ⟨by simp [empty], rfl, by simp [empty], fun _ => ⟨rfl, rfl⟩, by simp [empty]⟩

theorem sizedNode_newNode : SizedNode newNode := ⟨rfl, by decide⟩

variable {b b' : Buffer}

theorem Sized.small (h : b.Sized) : b.useSize < word32 := h.sum ▸ Nat.mod_lt _ (by decide)

/-- What is used and what is free make up the capacity. -/
theorem roomSum_add_sumUse {l : List BufferNode} (h : ∀ n ∈ l, SizedNode n) :
    roomSum l + sumUse l = l.length * bufferInitSize := by
  induction l with
  | nil => simp [roomSum]
  | cons n l ih =>
    obtain ⟨⟨htotal, huse⟩, hl⟩ := List.forall_mem_cons.mp h
    have hrest := ih hl
    rw [roomSum_cons, sumUse_cons, List.length_cons, nodeRoom, htotal, Nat.succ_mul]
    omega

theorem Sized.capacity_le (h : b.Sized) : b.buffList.length * bufferInitSize ≤ word32 := by
  have hcount := h.count
  rw [bufferInitSize, word32]
  omega

/-- Below 2^32 bytes the size is exact. -/
theorem Sized.exact (h : b.Sized) (hcap : b.buffList.length * bufferInitSize < word32) :
    b.useSize = sumUse b.buffList := by
  have hroom := roomSum_add_sumUse h.nodes
  rw [h.sum, Nat.mod_eq_of_lt (by omega)]

/-- The free space that `GetLeftSize` shows is there. -/
theorem Sized.left_le (h : b.Sized) : b.getLeftSize ≤ roomSum b.buffList := by
  have hroom := roomSum_add_sumUse h.nodes
  have hcap := h.capacity_le
  rw [getLeftSize, h.sum]
  rcases Nat.lt_or_eq_of_le hcap with hlt | heq
  · rw [Nat.mod_eq_of_lt hlt, Nat.mod_eq_of_lt (by omega), sub32_of_le (by omega)]
    omega
  · rw [heq, Nat.mod_self]
    rcases Nat.lt_or_ge (sumUse b.buffList) word32 with huse | huse
    · rw [Nat.mod_eq_of_lt huse, sub32]
      split <;> omega
    · have hfull : sumUse b.buffList = word32 := by omega
      rw [hfull, Nat.mod_self]
      exact Nat.zero_le _

/-! ## Growing the ring -/

theorem sumUse_insertAt (l : List BufferNode) (i : ℕ) (n : BufferNode) :
    sumUse (insertAt l i n) = n.useSize + sumUse l :=
  sumUse_perm (perm_insertAt l i n)

theorem sumUse_set {l : List BufferNode} {i : ℕ} (hi : i < l.length) (n : BufferNode) :
    sumUse (l.set i n) + l[i].useSize = sumUse l + n.useSize := by
  induction l generalizing i with
  | nil => simp at hi
  | cons m l ih =>
    cases i with
    | zero =>
      simp only [List.set_cons_zero, sumUse_cons, List.getElem_cons_zero]
      omega
    | succ i =>
      have hrest := ih (Nat.lt_of_succ_lt_succ hi)
      simp only [List.set_cons_succ, sumUse_cons, List.getElem_cons_succ]
      omega

theorem node_eq_getElem {i : ℕ} (hi : i < b.buffList.length) : b.node i = b.buffList[i] :=
  List.getD_eq_getElem _ _ hi

theorem Sized.node (h : b.Sized) {i : ℕ} (hi : i < b.buffList.length) : SizedNode (b.node i) := by
  rw [node_eq_getElem hi]
  exact h.nodes _ (List.getElem_mem hi)

/-- A node more, the same sum. -/
theorem Sized.insert (h : b.Sized) (hlim : b.buffList.length < 1048576) {l : List BufferNode} {n : BufferNode}
    {i w r : ℕ} (hnodes : ∀ m ∈ l, SizedNode m) (hn : SizedNode n) (hlen : l.length = b.buffList.length)
    (hsum : n.useSize + sumUse l = sumUse b.buffList) (hi : i ≤ b.buffList.length)
    (hw : w ≤ b.buffList.length) (hr : r ≤ b.buffList.length) : Sized ⟨insertAt l i n, w, r, b.useSize⟩ := by
  have hlen' : (insertAt l i n).length = b.buffList.length + 1 := by
    rw [length_insertAt n (hlen ▸ hi), hlen]
  refine ⟨?_, ?_, ?_, ?_, ?_⟩
  · intro m hm
    rcases List.mem_cons.mp ((perm_insertAt l i n).mem_iff.mp hm) with rfl | hm
    · exact hn
    · exact hnodes m hm
  · rw [sumUse_insertAt, hsum]
    exact h.sum
  · rw [hlen']
    exact hlim
  · intro hnil
    rw [show insertAt l i n = [] from hnil] at hlen'
    cases hlen'
  · intro _
    simp only [hlen']
    omega

/-- `Expand` adds one node and keeps the sum, also where it moves bytes to the new one. -/
theorem Sized.expand (h : b.Sized) (he : b.expand = some b') :
    b'.Sized ∧ b'.buffList.length = b.buffList.length + 1 := by
  obtain ⟨hlim, hpass⟩ := pass_of_expand he
  cases hpass with
  | first hnil =>
    have hzero : b.useSize = 0 := by rw [h.sum, hnil]; rfl
    refine ⟨⟨?_, ?_, by simp, by simp, by simp⟩, by simp [hnil]⟩
    · simpa using sizedNode_newNode
    · simp [hzero, newNode]
  | moved hnil heq real hreal hlt front _ htotal hfront =>
    obtain ⟨hw, hr⟩ := h.iters hnil
    obtain ⟨hwtotal, hwuse⟩ := h.node hw
    have hset : _ = _ + real := sumUse_set hw (withUse (b.node b.wNodeIt) real)
    rw [← node_eq_getElem hw] at hset
    refine ⟨h.insert hlim ?_ ⟨htotal, by omega⟩ (by simp) ?_ hw.le hw.le hr, ?_⟩
    · intro m hm
      rcases List.mem_or_eq_of_mem_set hm with hm | rfl
      · exact h.nodes m hm
      · have hle : real ≤ bufferInitSize := by omega
        exact ⟨hwtotal, hle⟩
    · omega
    · rw [length_insertAt _ (by simpa using hw.le), List.length_set]
  | front hnil heq =>
    obtain ⟨hw, hr⟩ := h.iters hnil
    exact ⟨h.insert hlim h.nodes sizedNode_newNode rfl (by simp [newNode]) hw.le hw.le hr,
      length_insertAt _ hw.le⟩
  | behind hnil =>
    obtain ⟨hw, hr⟩ := h.iters hnil
    exact ⟨h.insert hlim h.nodes sizedNode_newNode rfl (by simp [newNode]) hw hw.le (by split_ifs <;> omega),
      length_insertAt _ hw⟩

/-- A property that `Expand` keeps from sized buffers, kept by the loop around it. -/
theorem Sized.expandLoop {P : Buffer → Prop}
    (hP : ∀ c c', Sized c → P c → c.expand = some c' → P c') (h : b.Sized) (hb : P b) {size fuel : ℕ}
    (hfuel : 1048576 < fuel + b.buffList.length) :
    ∃ ok b', expandLoop fuel b size = some (ok, b') ∧ b'.Sized ∧ P b' ∧
      b.buffList.length ≤ b'.buffList.length ∧ (ok = true → size ≤ b'.getLeftSize) := by
  induction fuel generalizing b with
  | zero =>
    have hcount := h.count
    omega
  | succ fuel ih =>
    by_cases hlt : b.getLeftSize < size
    · cases hx : b.expand with
      | none => exact ⟨false, b, by simp [Buffer.expandLoop, hlt, hx], h, hb, le_rfl, by simp⟩
      | some c =>
        obtain ⟨hc, hlen⟩ := h.expand hx
        obtain ⟨ok, b', hloop, hsized, hPb, hmono, hok⟩ := ih hc (hP b c h hb hx) (by omega)
        exact ⟨ok, b', by simp [Buffer.expandLoop, hlt, hx, hloop], hsized, hPb, by omega, hok⟩
    · exact ⟨true, b, by simp [Buffer.expandLoop, hlt], h, hb, le_rfl, fun _ => by omega⟩

/-- `Reserver` returns. -/
theorem Sized.reserver {P : Buffer → Prop}
    (hP : ∀ c c', Sized c → P c → c.expand = some c' → P c') (h : b.Sized) (hb : P b) (size : ℕ) :
    ∃ ok b', b.reserver size = some (ok, b') ∧ b'.Sized ∧ P b' ∧
      b.buffList.length ≤ b'.buffList.length ∧ (ok = true → size ≤ b'.getLeftSize) := by
  apply h.expandLoop hP hb
  rw [expandFuel]
  omega

/-! ## Consuming bytes -/

section Consume
variable {x : BufferNode} {xs ys : List BufferNode} {k : ℕ}

theorem Sized.head (h : b.Sized) (hx : b.ring = x :: xs) :
    b.buffList ≠ [] ∧ b.node b.rNodeIt = x ∧ SizedNode x := by
  have hne : b.buffList ≠ [] := by
    intro hnil
    simp [ring, hnil] at hx
  have hn : b.node b.rNodeIt = x := node_eq_head (h.iters hne).2 hx
  exact ⟨hne, hn, hn ▸ h.node (h.iters hne).2⟩

/-- `k` bytes leave the node under the read iterator; the size stays the sum. -/
theorem Sized.consume (h : b.Sized) (hexact : b.useSize = sumUse b.buffList) (hx : b.ring = x :: xs)
    (hk : k ≤ x.useSize) :
    (b.consume k).Sized ∧ (b.consume k).useSize = sumUse (b.consume k).buffList ∧
      (b.consume k).buffList.length = b.buffList.length := by
  obtain ⟨hne, hn, htotal, hxuse⟩ := h.head hx
  obtain ⟨hw, hr⟩ := h.iters hne
  have hlist := consume_buffList (k := k) hn
  have hlen : (b.consume k).buffList.length = b.buffList.length := by rw [hlist]; simp
  have hsum := sumUse_consumed hr hx hk
  have huse : (b.consume k).useSize = sumUse (b.consume k).buffList := by
    rw [consume_useSize, sub32_of_le (by omega), hlist]
    omega
  have hsmall := h.small
  refine ⟨⟨?_, ?_, ?_, ?_, ?_⟩, huse, hlen⟩
  · intro n hm
    rw [hlist] at hm
    rcases List.mem_or_eq_of_mem_set hm with hm | rfl
    · exact h.nodes n hm
    · exact ⟨htotal, (Nat.sub_le _ _).trans hxuse⟩
  · rw [huse, Nat.mod_eq_of_lt]
    rw [hlist]
    omega
  · rw [hlen]
    exact h.count
  · intro hnil
    rw [hnil] at hlen
    exact absurd (List.eq_nil_of_length_eq_zero hlen.symm) hne
  · intro _
    rw [hlen]
    exact consume_iters hw hr

variable {P : Buffer → Prop}
variable (hP : ∀ c x xs k, Sized c → c.useSize = sumUse c.buffList → c.ring = x :: xs → k ≤ x.useSize →
  P c → P (c.consume k))
include hP

/-- Both read loops end, with the same buffer. -/
theorem Sized.readLoops (h : b.Sized) (hb : P b) (hexact : b.useSize = sumUse b.buffList)
    (hring : b.ring = xs ++ ys) (hys : ∀ y ∈ ys, y.useSize = 0) {left fuel : ℕ} (hleft : left ≤ sumUse xs)
    (hfuel : xs.length ≤ fuel) (out : List Byte) :
    ∃ b', readLoop fuel b out left = some (out ++ (xs.flatMap unreadNode).take left, b') ∧
      moveReadLoop fuel b left = some b' ∧ b'.Sized ∧ P b' ∧ b'.buffList.length = b.buffList.length := by
  have hstep (c : Buffer) (x : BufferNode) (zs : List BufferNode) (k : ℕ)
      (hc : c.Sized ∧ c.useSize = sumUse c.buffList ∧ P c ∧ c.buffList.length = b.buffList.length)
      (hx : c.ring = x :: zs) (hk : k ≤ x.useSize) : (c.consume k).Sized ∧
        (c.consume k).useSize = sumUse (c.consume k).buffList ∧ P (c.consume k) ∧
        (c.consume k).buffList.length = b.buffList.length := by
    obtain ⟨hsized, huse, hPc, hlen⟩ := hc
    obtain ⟨hsized', huse', hlen'⟩ := hsized.consume huse hx hk
    exact ⟨hsized', huse', hP c x zs k hsized huse hx hk hPc, hlen'.trans hlen⟩
  obtain ⟨b', hread, hmove, ⟨hsized, -, hPb, hlen⟩, -⟩ :=
    readLoops_run (fun c hc => hc.2.1) (fun c hc hne => (hc.1.iters hne).2) hstep ⟨h, hexact, hb, rfl⟩
      hring hys hleft hfuel out
  exact ⟨b', hread, hmove, hsized, hPb, hlen⟩

/-- The loops on the whole ring, for no more than the size shows. -/
theorem Sized.readLoops_ring (h : b.Sized) (hb : P b) {left : ℕ} (hleft : left ≤ b.useSize) :
    ∃ b', readLoop (b.buffList.length + 1) b [] left = some (b.unread.take left, b') ∧
      moveReadLoop (b.buffList.length + 1) b left = some b' ∧ b'.Sized ∧ P b' ∧
      b'.buffList.length = b.buffList.length := by
  rcases Nat.eq_zero_or_pos left with rfl | hpos
  · exact ⟨b, by simp [readLoop_zero], moveReadLoop_zero _ b, h, hb, rfl⟩
  have hroom := roomSum_add_sumUse h.nodes
  have hcap := h.capacity_le
  have hexact : b.useSize = sumUse b.buffList := by
    rw [h.sum]
    rcases Nat.lt_or_ge (sumUse b.buffList) word32 with huse | huse
    · exact Nat.mod_eq_of_lt huse
    · -- 2^32 bytes would show as none
      have hfull : sumUse b.buffList = word32 := by omega
      rw [h.sum, hfull, Nat.mod_self] at hleft
      omega
  have hlen : b.ring.length ≤ b.buffList.length + 1 := by simp [ring]
  refine h.readLoops hP hb hexact (List.append_nil b.ring).symm (fun y hy => absurd hy List.not_mem_nil) ?_ hlen []
  rw [sumUse_ring, ← hexact]
  exact hleft

/-- `ReadBuffer(char*, uint32)` hands out the first unread bytes; `MoveReadPos` of that size leaves the same
buffer. -/
theorem Sized.readBuffer (h : b.Sized) (hb : P b) (size : ℕ) :
    ∃ b', b.readBuffer size = some (b.unread.take (min size b.useSize), b') ∧ b.moveReadPos size = some b' ∧
      b'.Sized ∧ P b' ∧ b'.buffList.length = b.buffList.length := by
  have hmin : (if size > b.useSize then b.useSize else size) = min size b.useSize := by split_ifs <;> omega
  rw [Buffer.readBuffer, Buffer.moveReadPos]
  simp only [hmin]
  split_ifs with hend
  · have hnil : b.buffList = [] := by
      by_contra hne
      exact (h.iters hne).2.ne hend
    exact ⟨b, by simp [unread, ring, hnil], rfl, h, hb, rfl⟩
  · exact h.readLoops_ring hP hb (Nat.min_le_right size b.useSize)

end Consume

/-! ## Writing -/

/-- What an operation may change in a node besides its bytes. -/
def shape (n : BufferNode) : ℕ × ℕ × ℕ := (n.readCursor, n.totalSize, n.useSize)

def SameShape (l l' : List BufferNode) : Prop := l.map shape = l'.map shape

/-- The node after a pass of `WriteBuffer` that copies `k` bytes. -/
def put (n : BufferNode) (data : List Byte) (k : ℕ) : BufferNode :=
  { n with buffer := store n.buffer n.useSize (data.take k), useSize := n.useSize + k }

theorem SameShape.cons {l l' : List BufferNode} (h : SameShape l l') {n n' : BufferNode} (hn : shape n = shape n') :
    SameShape (n :: l) (n' :: l') := by
  simp only [SameShape, List.map_cons, hn]
  exact congrArg _ h

section Write
variable (data : List Byte) {pre l ns : List BufferNode} {n : BufferNode} {left fuel : ℕ}

theorem writeLoop_here (hn : (b.node b.wNodeIt).totalSize ≠ (b.node b.wNodeIt).useSize) (hpos : 0 < left) :
    writeLoop data (fuel + 1) b left =
      writeLoop data fuel (b.setNode b.wNodeIt (put (b.node b.wNodeIt) data (min left (nodeRoom (b.node b.wNodeIt)))))
        (left - min left (nodeRoom (b.node b.wNodeIt))) := by
  have hmin : (if left > (b.node b.wNodeIt).totalSize - (b.node b.wNodeIt).useSize then
      (b.node b.wNodeIt).totalSize - (b.node b.wNodeIt).useSize else left) =
      min left (nodeRoom (b.node b.wNodeIt)) := by
    rw [nodeRoom]
    split_ifs <;> omega
  simp only [writeLoop, if_pos hpos, if_neg hn, hmin, put]

theorem writeLoop_behind (hn : (b.node b.wNodeIt).totalSize = (b.node b.wNodeIt).useSize) (hpos : 0 < left) :
    writeLoop data (fuel + 1) b left =
      let c := b.getNextWNodeIt
      writeLoop data fuel (c.setNode c.wNodeIt (put (c.node c.wNodeIt) data (min left (nodeRoom (c.node c.wNodeIt)))))
        (left - min left (nodeRoom (c.node c.wNodeIt))) := by
  have hmin (m : BufferNode) : (if left > m.totalSize - m.useSize then m.totalSize - m.useSize else left) =
      min left (nodeRoom m) := by
    rw [nodeRoom]
    split_ifs <;> omega
  simp only [writeLoop, if_pos hpos, if_pos hn, hmin, put]

/-- The passes that start at a full node; the induction is on the nodes behind it. -/
theorem writeLoop_full (hr : b.rNodeIt < b.buffList.length) (hw : b.wNodeIt < b.buffList.length)
    (hring : b.ring = pre ++ n :: ns) (hpre : pre.length = offset b.buffList.length b.rNodeIt b.wNodeIt)
    (hn : n.totalSize = n.useSize) (hin : ∀ m ∈ ns, m.useSize ≤ m.totalSize) (hpos : 0 < left)
    (hroom : left ≤ roomSum ns) (hfuel : ns.length ≤ fuel) :
    ∃ b' ns', writeLoop data fuel b left = some b' ∧ b'.ring = pre ++ n :: ns' ∧
      SameShape ns' (growAll ns left) ∧ b'.buffList.length = b.buffList.length ∧ b'.rNodeIt = b.rNodeIt ∧
      b'.wNodeIt < b.buffList.length ∧ b'.useSize = b.useSize := by
  induction ns generalizing b pre n left fuel with
  | nil =>
    simp only [roomSum, List.map_nil, List.sum_nil] at hroom
    omega
  | cons m ns ih =>
    obtain ⟨fuel, rfl⟩ : ∃ f, fuel = f + 1 := ⟨fuel - 1, by simp at hfuel; omega⟩
    rw [List.length_cons, Nat.add_le_add_iff_right] at hfuel
    rw [roomSum_cons] at hroom
    have hx : b.node b.wNodeIt = n := node_of_ring hr hw hring hpre
    set c := b.getNextWNodeIt with hc
    have hcw : c.wNodeIt < b.buffList.length := next_lt hw
    have hpre' : (pre ++ [n]).length = offset b.buffList.length b.rNodeIt c.wNodeIt :=
      offset_walk hr hring hpre (List.cons_ne_nil m ns) n
    have hcring : c.ring = (pre ++ [n]) ++ m :: ns := by
      rw [List.append_assoc]
      exact hring
    have hy : c.node c.wNodeIt = m := @node_of_ring c _ _ _ _ hr hcw hcring hpre'
    set k := min left (nodeRoom m) with hk
    set d := c.setNode c.wNodeIt (put m data k) with hd
    have hdring : d.ring = (pre ++ [n]) ++ put m data k :: ns := ring_setNode (b := c) hr hcw hcring hpre' _
    have hdlen : d.buffList.length = b.buffList.length := by simp [hd, hc, setNode, getNextWNodeIt]
    have hstep : writeLoop data (fuel + 1) b left = writeLoop data fuel d (left - k) := by
      rw [writeLoop_behind data (by rw [hx]; exact hn) hpos]
      simp only [← hc, hy, ← hk, ← hd]
    rw [hstep]
    rcases Nat.eq_zero_or_pos (left - k) with h0 | hpos'
    · rw [h0, writeLoop_done]
      refine ⟨d, put m data k :: ns, rfl, by rw [hdring, List.append_assoc]; rfl, ?_, hdlen, rfl, hcw, rfl⟩
      rw [growAll, ← hk, h0, growAll_zero]
      exact SameShape.cons rfl rfl
    · have hin' := List.forall_mem_cons.mp hin
      have hfull : (put m data k).totalSize = (put m data k).useSize := by
        have hle := hin'.1
        simp only [put]
        rw [nodeRoom] at hk
        omega
      have hrest : left - k ≤ roomSum ns := by omega
      obtain ⟨b', ns', hb', hring', hshape, hlen', hr', hw', huse'⟩ := @ih d _ _ (left - k) fuel
        (hdlen ▸ hr) (hdlen ▸ hcw) hdring (by rw [hdlen]; exact hpre') hfull hin'.2 hpos' hrest hfuel
      refine ⟨b', put m data k :: ns', hb', by rw [hring', List.append_assoc]; rfl, ?_,
        hlen'.trans hdlen, hr', hdlen ▸ hw', huse'⟩
      rw [growAll, ← hk]
      exact hshape.cons rfl

/-- The loop of `WriteBuffer` ends; it fills the nodes from the write node on, as `MoveWritePos` counts them. -/
theorem writeLoop_ring (hr : b.rNodeIt < b.buffList.length) (hw : b.wNodeIt < b.buffList.length)
    (hring : b.ring = pre ++ l) (hpre : pre.length = offset b.buffList.length b.rNodeIt b.wNodeIt)
    (hin : ∀ m ∈ l, m.useSize ≤ m.totalSize) (hroom : left ≤ roomSum l) (hfuel : l.length ≤ fuel) :
    ∃ b' l', writeLoop data fuel b left = some b' ∧ b'.ring = pre ++ l' ∧
      SameShape l' (growAll l left) ∧ b'.buffList.length = b.buffList.length ∧ b'.rNodeIt = b.rNodeIt ∧
      b'.wNodeIt < b.buffList.length ∧ b'.useSize = b.useSize := by
  rcases Nat.eq_zero_or_pos left with rfl | hpos
  · rw [growAll_zero, writeLoop_done]
    exact ⟨b, l, rfl, hring, rfl, rfl, rfl, hw, rfl⟩
  cases l with
  | nil =>
    simp only [roomSum, List.map_nil, List.sum_nil] at hroom
    omega
  | cons n ns =>
    obtain ⟨fuel, rfl⟩ : ∃ f, fuel = f + 1 := ⟨fuel - 1, by simp at hfuel; omega⟩
    rw [List.length_cons, Nat.add_le_add_iff_right] at hfuel
    rw [roomSum_cons] at hroom
    obtain ⟨hle, hin⟩ := List.forall_mem_cons.mp hin
    have hx : b.node b.wNodeIt = n := node_of_ring hr hw hring hpre
    by_cases hn : n.totalSize = n.useSize
    · have hzero : nodeRoom n = 0 := by rw [nodeRoom, hn, Nat.sub_self]
      obtain ⟨b', ns', hb', hring', hshape, hrest⟩ := writeLoop_full data hr hw hring hpre hn hin hpos
        (show left ≤ roomSum ns by omega) (show ns.length ≤ fuel + 1 by omega)
      refine ⟨b', n :: ns', hb', hring', ?_, hrest⟩
      rw [growAll, hzero, Nat.min_zero, Nat.sub_zero]
      exact hshape.cons rfl
    · set k := min left (nodeRoom n) with hk
      set d := b.setNode b.wNodeIt (put n data k) with hd
      have hdring : d.ring = pre ++ put n data k :: ns := ring_setNode hr hw hring hpre _
      have hdlen : d.buffList.length = b.buffList.length := by simp [hd, setNode]
      have hstep : writeLoop data (fuel + 1) b left = writeLoop data fuel d (left - k) := by
        rw [writeLoop_here data (by rw [hx]; exact hn) hpos, hx]
      rw [hstep, growAll, ← hk]
      rcases Nat.eq_zero_or_pos (left - k) with h0 | hpos'
      · rw [h0, writeLoop_done, growAll_zero]
        exact ⟨d, _, rfl, hdring, SameShape.cons rfl rfl, hdlen, rfl, hw, rfl⟩
      · have hfull : (put n data k).totalSize = (put n data k).useSize := by
          simp only [put]
          rw [nodeRoom] at hk
          omega
        have hrest : left - k ≤ roomSum ns := by omega
        obtain ⟨b', ns', hb', hring', hshape, hlen', hr', hw', huse'⟩ := @writeLoop_full d data _ _ _ _ _
          (hdlen ▸ hr) (hdlen ▸ hw) hdring (by rw [hdlen]; exact hpre) hfull hin hpos' hrest hfuel
        exact ⟨b', _, hb', hring', hshape.cons rfl, hlen'.trans hdlen, hr', hdlen ▸ hw', huse'⟩

end Write

/-- The writing loops do not look at the read iterator. -/
theorem writeLoop_rNodeIt (data : List Byte) (fuel : ℕ) (b : Buffer) (r left : ℕ) :
    writeLoop data fuel { b with rNodeIt := r } left =
      (writeLoop data fuel b left).map fun c => { c with rNodeIt := r } := by
  induction fuel generalizing b left with
  | zero =>
    simp only [writeLoop]
    split <;> rfl
  | succ fuel ih =>
    rcases Nat.eq_zero_or_pos left with rfl | hpos
    · rw [writeLoop_done, writeLoop_done]
      rfl
    by_cases hn : (b.node b.wNodeIt).totalSize = (b.node b.wNodeIt).useSize
    · rw [@writeLoop_behind b data _ _ hn hpos, @writeLoop_behind { b with rNodeIt := r } data _ _ hn hpos]
      exact ih (b.getNextWNodeIt.setNode _ _) _
    · rw [@writeLoop_here b data _ _ hn hpos, @writeLoop_here { b with rNodeIt := r } data _ _ hn hpos]
      exact ih (b.setNode _ _) _

theorem moveWriteLoop_rNodeIt (fuel : ℕ) (b : Buffer) (r size : ℕ) :
    moveWriteLoop fuel { b with rNodeIt := r } size =
      (moveWriteLoop fuel b size).map fun c => { c with rNodeIt := r } := by
  induction fuel generalizing b size with
  | zero =>
    simp only [moveWriteLoop]
    split <;> rfl
  | succ fuel ih =>
    simp only [moveWriteLoop]
    split
    · exact ih (Buffer.setNode { b with useSize := _ } _ _).getNextWNodeIt _
    · rfl

/-- `c` is `b` after `k` bytes more, counted from the write node on. -/
structure Grown (b : Buffer) (k : ℕ) (c : Buffer) : Prop where
  shape : SameShape (c.buffList.rotate b.wNodeIt) (growAll (b.buffList.rotate b.wNodeIt) k)
  length : c.buffList.length = b.buffList.length
  rNodeIt : c.rNodeIt = b.rNodeIt
  wNodeIt : c.wNodeIt < b.buffList.length

theorem roomSum_rotate (l : List BufferNode) (i : ℕ) : roomSum (l.rotate i) = roomSum l :=
  ((List.rotate_perm l i).map nodeRoom).sum_eq

theorem Sized.rotate (h : b.Sized) {m : BufferNode} (hm : m ∈ b.buffList.rotate b.wNodeIt) :
    0 < m.totalSize ∧ m.useSize ≤ m.totalSize := by
  obtain ⟨htotal, huse⟩ := h.nodes m (List.mem_rotate.mp hm)
  exact ⟨htotal ▸ by decide, by omega⟩

theorem Sized.writeLoop (h : b.Sized) (hne : b.buffList ≠ []) (data : List Byte) {k : ℕ}
    (hk : k ≤ roomSum b.buffList) :
    ∃ c, writeLoop data (b.buffList.length + 1) b k = some c ∧ Grown b k c ∧ c.useSize = b.useSize := by
  obtain ⟨hw, hr⟩ := h.iters hne
  have hroom : k ≤ roomSum (b.buffList.rotate b.wNodeIt) := by rwa [roomSum_rotate]
  have hfuel : (b.buffList.rotate b.wNodeIt).length ≤ b.buffList.length + 1 := by
    rw [List.length_rotate]
    omega
  -- the ring read from the write node
  obtain ⟨c, l', hc, hring, hshape, hlen, -, hcw, huse⟩ :=
    @writeLoop_ring { b with rNodeIt := b.wNodeIt } data [] (b.buffList.rotate b.wNodeIt) k (b.buffList.length + 1)
      hw hw rfl (offset_self _ _).symm (fun m hm => (h.rotate hm).2) hroom hfuel
  rw [writeLoop_rNodeIt] at hc
  obtain ⟨c, hloop, rfl⟩ := Option.map_eq_some_iff.mp hc
  have hkept : Buffer.writeLoop data _ b k = _ := writeLoop_rNodeIt data (b.buffList.length + 1) b b.rNodeIt k
  rw [hloop] at hkept
  have hself : c = { c with rNodeIt := b.rNodeIt } := Option.some.inj hkept
  have hrc := congrArg rNodeIt hself
  have hrotate : c.buffList.rotate b.wNodeIt = l' := hring
  exact ⟨c, hloop, ⟨(congrArg (List.map shape) hrotate).trans hshape, hlen, hrc, hcw⟩, huse⟩

/-- `MoveWritePos` with a size that is free; the comparison must not wrap at the write node. -/
theorem Sized.moveWriteLoop (h : b.Sized) (hne : b.buffList ≠ []) {k : ℕ} (hk : k ≤ roomSum b.buffList)
    (hwrap : (b.node b.wNodeIt).useSize + k < word32) :
    ∃ c, moveWriteLoop (b.buffList.length + 1) b k = some c ∧
      c.buffList.rotate b.wNodeIt = growAll (b.buffList.rotate b.wNodeIt) k ∧ Grown b k c ∧
      c.useSize = add32 b.useSize k := by
  obtain ⟨hw, hr⟩ := h.iters hne
  have hroom : k ≤ roomSum (b.buffList.rotate b.wNodeIt) := by rwa [roomSum_rotate]
  have hsum : sumUse (b.buffList.rotate b.wNodeIt) + k ≤ word32 := by
    have hcap := h.capacity_le
    have hall := roomSum_add_sumUse h.nodes
    rw [sumUse_perm (List.rotate_perm _ _)]
    omega
  have hhead : ∀ m ∈ (b.buffList.rotate b.wNodeIt).head?, m.useSize + k < word32 := by
    intro m hm
    rw [List.head?_rotate hw, List.getElem?_eq_getElem hw] at hm
    obtain rfl := Option.some.inj hm
    rwa [node_eq_getElem hw] at hwrap
  have hfuel : (b.buffList.rotate b.wNodeIt).length ≤ b.buffList.length + 1 := by
    rw [List.length_rotate]
    omega
  obtain ⟨c, hc, hring, hlen, -, hcw, huse⟩ :=
    @moveWriteLoop_ring { b with rNodeIt := b.wNodeIt } [] (b.buffList.rotate b.wNodeIt) k hw hw rfl
      (offset_self _ _).symm hroom (fun m hm => h.rotate hm) hsum hhead h.small (b.buffList.length + 1) hfuel
  rw [moveWriteLoop_rNodeIt] at hc
  obtain ⟨c, hloop, rfl⟩ := Option.map_eq_some_iff.mp hc
  have hkept : Buffer.moveWriteLoop _ b k = _ := moveWriteLoop_rNodeIt (b.buffList.length + 1) b b.rNodeIt k
  rw [hloop] at hkept
  have hself : c = { c with rNodeIt := b.rNodeIt } := Option.some.inj hkept
  have hrc := congrArg rNodeIt hself
  have hrotate : c.buffList.rotate b.wNodeIt = growAll (b.buffList.rotate b.wNodeIt) k := hring
  exact ⟨c, hloop, hrotate, ⟨congrArg (List.map shape) hrotate, hlen, hrc, hcw⟩, huse⟩

/-! ## What growing keeps -/

theorem SameShape.sumUse_eq {l l' : List BufferNode} (h : SameShape l l') : sumUse l = sumUse l' := by
  have huse (l : List BufferNode) : sumUse l = ((l.map shape).map fun s => s.2.2).sum := by
    rw [sumUse, List.map_map]
    rfl
  rw [huse, huse, h]

theorem SameShape.sized {l l' : List BufferNode} (h : SameShape l l') (hl : ∀ n ∈ l', SizedNode n) :
    ∀ n ∈ l, SizedNode n := by
  intro n hn
  have hmem : shape n ∈ l'.map shape := h ▸ List.mem_map_of_mem hn
  obtain ⟨m, hm, heq⟩ := List.mem_map.mp hmem
  obtain ⟨htotal, huse⟩ := hl m hm
  simp only [shape, Prod.mk.injEq] at heq
  exact ⟨heq.2.1 ▸ htotal, heq.2.2 ▸ huse⟩

theorem sized_growAll {l : List BufferNode} (h : ∀ n ∈ l, SizedNode n) (k : ℕ) :
    ∀ n ∈ growAll l k, SizedNode n := by
  induction l generalizing k with
  | nil => exact h
  | cons m l ih =>
    obtain ⟨hm, hl⟩ := List.forall_mem_cons.mp h
    refine List.forall_mem_cons.mpr ⟨?_, ih hl _⟩
    obtain ⟨htotal, huse⟩ := hm
    refine ⟨htotal, ?_⟩
    simp only [growNode, nodeRoom]
    omega

/-- The bytes that `Grown` counts are added to the size, as far as 32 bits show it. -/
theorem Sized.grown (h : b.Sized) {c : Buffer} {k : ℕ} (hk : k ≤ roomSum b.buffList) (hg : Grown b k c)
    (huse : c.useSize = add32 b.useSize k) (hne : b.buffList ≠ []) : c.Sized := by
  have hnodes : ∀ n ∈ b.buffList.rotate b.wNodeIt, SizedNode n := fun n hn => h.nodes n (List.mem_rotate.mp hn)
  have hroom : k ≤ roomSum (b.buffList.rotate b.wNodeIt) := by rwa [roomSum_rotate]
  refine ⟨?_, ?_, hg.length ▸ h.count, ?_, ?_⟩
  · intro n hn
    exact hg.shape.sized (sized_growAll hnodes k) n (List.mem_rotate.mpr hn)
  · rw [huse, add32, h.sum, Nat.mod_add_mod, ← sumUse_perm (List.rotate_perm c.buffList b.wNodeIt),
      hg.shape.sumUse_eq, sumUse_growAll hroom, sumUse_perm (List.rotate_perm _ _)]
  · intro hnil
    have hlen := hg.length
    rw [hnil] at hlen
    exact absurd (List.eq_nil_of_length_eq_zero hlen.symm) hne
  · intro _
    rw [hg.length, hg.rNodeIt]
    exact ⟨hg.wNodeIt, (h.iters hne).2⟩

/-! ## The writing operations -/

section Operations
variable {P : Buffer → Prop} (hexpand : ∀ c c', Sized c → P c → c.expand = some c' → P c')
include hexpand

/-- `WriteBuffer` returns. What it does besides making room is a `Grown`, whose property is asked for. -/
theorem Sized.writeBuffer (h : b.Sized) (hb : P b) (data : List Byte)
    (hgrown : ∀ c d, b.reserver data.length = some (true, c) → Sized c → P c → c.buffList ≠ [] →
      Grown c data.length d → P d) :
    ∃ ret d, b.writeBuffer data = some (ret, d) ∧ d.Sized ∧ P d ∧ b.buffList.length ≤ d.buffList.length := by
  obtain ⟨ok, c, hres, hc, hPc, hlen, hleft⟩ := h.reserver hexpand hb data.length
  cases ok with
  | false => exact ⟨0, c, by simp [Buffer.writeBuffer, hres], hc, hPc, hlen⟩
  | true =>
    by_cases hne : c.buffList = []
    · have hend : c.wNodeIt = c.buffList.length := by rw [(hc.ends hne).1, hne]; rfl
      exact ⟨0, c, by simp [Buffer.writeBuffer, hres, hend], hc, hPc, hlen⟩
    · have hroom := (hleft rfl).trans hc.left_le
      have hend : c.wNodeIt ≠ c.buffList.length := (hc.iters hne).1.ne
      obtain ⟨d, hd, hg, huse⟩ := hc.writeLoop hne data hroom
      have hg' : Grown c data.length { d with useSize := add32 d.useSize data.length } :=
        ⟨hg.shape, hg.length, hg.rNodeIt, hg.wNodeIt⟩
      refine ⟨data.length, { d with useSize := add32 d.useSize data.length }, ?_, ?_, ?_, ?_⟩
      · simp [Buffer.writeBuffer, hres, hend, hd]
      · exact hc.grown hroom hg' (by rw [← huse]) hne
      · exact hgrown c _ hres hc hPc hne hg'
      · exact hlen.trans hg.length.ge

theorem Sized.getWriteBuffer (h : b.Sized) (hb : P b) (iovcnt size : ℕ) :
    ∃ iov c, b.getWriteBuffer iovcnt size = some (iov, c) ∧ c.Sized ∧ P c ∧
      b.buffList.length ≤ c.buffList.length := by
  obtain ⟨ok, c, hres, hc, hPc, hlen, -⟩ := h.reserver hexpand hb (writeSize iovcnt size)
  cases ok with
  | false => exact ⟨[], c, by simp [Buffer.getWriteBuffer, hres], hc, hPc, hlen⟩
  | true => exact ⟨_, c, by simp [Buffer.getWriteBuffer, hres]; rfl, hc, hPc, hlen⟩

end Operations

/-- How much `MoveWritePos` moves. -/
def moveSize (b : Buffer) (size : ℕ) : ℕ := if b.getLeftSize > size then size else b.getLeftSize

theorem moveSize_le (b : Buffer) (size : ℕ) : b.moveSize size ≤ b.getLeftSize := by
  rw [moveSize]
  split_ifs <;> omega

/-- `MoveWritePos` returns where its comparison does not wrap. -/
theorem Sized.moveWritePos {P : Buffer → Prop} (h : b.Sized) (hb : P b) {size : ℕ}
    (hwrap : (b.node b.wNodeIt).useSize + b.moveSize size < word32)
    (hgrown : ∀ d, b.buffList ≠ [] → Grown b (b.moveSize size) d → P d) :
    ∃ d, b.moveWritePos size = some d ∧ d.Sized ∧ P d ∧ d.buffList.length = b.buffList.length := by
  have hroom := (b.moveSize_le size).trans h.left_le
  by_cases hne : b.buffList = []
  · have hzero : b.moveSize size = 0 := by
      rw [hne] at hroom
      exact Nat.eq_zero_of_le_zero hroom
    refine ⟨b, ?_, h, hb, rfl⟩
    rw [Buffer.moveWritePos, show (if b.getLeftSize > size then size else b.getLeftSize) = 0 from hzero]
    simp [Buffer.moveWriteLoop]
  · obtain ⟨d, hd, -, hg, huse⟩ := h.moveWriteLoop hne hroom hwrap
    exact ⟨d, hd, h.grown hroom hg huse hne, hgrown d hne hg, hg.length⟩

theorem Sized.writeNode_le (h : b.Sized) : (b.node b.wNodeIt).useSize ≤ sumUse b.buffList := by
  by_cases hne : b.buffList = []
  · simp [Buffer.node, hne]
    rfl
  · have hw := (h.iters hne).1
    rw [node_eq_getElem hw]
    exact List.single_le_sum (by simp) _ (List.mem_map_of_mem (List.getElem_mem hw))

/-- Below 2^32 bytes of capacity it does not wrap. -/
theorem Sized.no_wrap (h : b.Sized) (hcap : b.buffList.length * bufferInitSize < word32) (size : ℕ) :
    (b.node b.wNodeIt).useSize + b.moveSize size < word32 := by
  have hroom := (b.moveSize_le size).trans h.left_le
  have hall := roomSum_add_sumUse h.nodes
  have hle := h.writeNode_le
  omega

/-! ## Runs -/

/-- The public operations; the bytes that a socket puts into the iovecs of `GetWriteBuffer` change no size. -/
inductive BufferOp where
  | writeBuffer (buffer : List Byte)
  | readBuffer (size : ℕ)
  | readNode
  | readBufferIov (iovcnt size : ℕ)
  | moveReadPos (size : ℕ)
  | getWriteBuffer (iovcnt size : ℕ)
  | moveWritePos (size : ℕ)
  | reserver (size : ℕ)

/-- The buffer after an operation, `none` where a loop does not end. -/
def bufferStep (b : Buffer) : BufferOp → Option Buffer
  | .writeBuffer buffer => (b.writeBuffer buffer).map Prod.snd
  | .readBuffer size => (b.readBuffer size).map Prod.snd
  | .readNode | .readBufferIov _ _ => some b
  | .moveReadPos size => b.moveReadPos size
  | .getWriteBuffer iovcnt size => (b.getWriteBuffer iovcnt size).map Prod.snd
  | .moveWritePos size => b.moveWritePos size
  | .reserver size => (b.reserver size).map Prod.snd

/-- What a write has to meet for `P` to survive it. -/
def WriteKeeps (P : Buffer → Prop) (b : Buffer) : BufferOp → Prop
  | .writeBuffer data => ∀ c d, b.reserver data.length = some (true, c) → Sized c → P c → c.buffList ≠ [] →
      Grown c data.length d → P d
  | .moveWritePos size => (b.node b.wNodeIt).useSize + b.moveSize size < word32 ∧
      ∀ d, b.buffList ≠ [] → Grown b (b.moveSize size) d → P d
  | _ => True

/-- The step lemma, for any further property that growing the ring and consuming bytes keep. -/
theorem Sized.step {P : Buffer → Prop} (hexpand : ∀ c c', Sized c → P c → c.expand = some c' → P c')
    (hconsume : ∀ c x xs k, Sized c → c.useSize = sumUse c.buffList → c.ring = x :: xs → k ≤ x.useSize →
      P c → P (c.consume k)) (h : b.Sized) (hb : P b) (op : BufferOp) (hop : WriteKeeps P b op) :
    ∃ c, bufferStep b op = some c ∧ c.Sized ∧ P c ∧ b.buffList.length ≤ c.buffList.length := by
  cases op with
  | writeBuffer data =>
    obtain ⟨ret, c, hc, hrest⟩ := h.writeBuffer hexpand hb data hop
    exact ⟨c, by simp [bufferStep, hc], hrest⟩
  | readBuffer size =>
    obtain ⟨c, hc, -, hsized, hPc, hlen⟩ := h.readBuffer hconsume hb size
    exact ⟨c, by simp [bufferStep, hc], hsized, hPc, hlen.ge⟩
  | readNode => exact ⟨b, rfl, h, hb, le_rfl⟩
  | readBufferIov iovcnt size => exact ⟨b, rfl, h, hb, le_rfl⟩
  | moveReadPos size =>
    obtain ⟨c, -, hc, hsized, hPc, hlen⟩ := h.readBuffer hconsume hb size
    exact ⟨c, hc, hsized, hPc, hlen.ge⟩
  | getWriteBuffer iovcnt size =>
    obtain ⟨iov, c, hc, hrest⟩ := h.getWriteBuffer hexpand hb iovcnt size
    exact ⟨c, by simp [bufferStep, hc], hrest⟩
  | moveWritePos size =>
    obtain ⟨c, hc, hsized, hPc, hlen⟩ := h.moveWritePos hb hop.1 hop.2
    exact ⟨c, hc, hsized, hPc, hlen.ge⟩
  | reserver size =>
    obtain ⟨ok, c, hc, hsized, hPc, hlen, -⟩ := h.reserver hexpand hb size
    exact ⟨c, by simp [bufferStep, hc], hsized, hPc, hlen⟩

/-- Below 2^32 bytes every operation returns and keeps the sizes right. -/
theorem Sized.step_below (h : b.Sized) (hcap : b.buffList.length * bufferInitSize < word32) (op : BufferOp) :
    ∃ c, bufferStep b op = some c ∧ c.Sized ∧ b.buffList.length ≤ c.buffList.length := by
  have hop : WriteKeeps (fun _ => True) b op := by
    cases op with
    | writeBuffer data => exact fun _ _ _ _ _ _ _ => trivial
    | moveWritePos size => exact ⟨h.no_wrap hcap size, fun _ _ _ => trivial⟩
    | readBuffer _ | readNode | readBufferIov _ _ | moveReadPos _ | getWriteBuffer _ _ | reserver _ => trivial
  obtain ⟨c, hc, hsized, -, hlen⟩ :=
    h.step (fun _ _ _ _ _ => trivial) (fun _ _ _ _ _ _ _ _ _ => trivial) trivial op hop
  exact ⟨c, hc, hsized, hlen⟩

/-- The total capacity is below 2^32 bytes. -/
def Below (b : Buffer) : Prop := b.buffList.length * bufferInitSize < word32

instance (b : Buffer) : Decidable b.Below := inferInstanceAs (Decidable (_ < _))

/-- In every run whose capacity stays below 2^32 bytes the sizes are right, and every operation returns from
where the run has come to. -/
theorem sizes_and_termination {ops : List BufferOp} {s : Buffer}
    (hg : Guarded bufferStep (fun b _ => b.Below) empty ops) (hs : exec bufferStep empty ops = some s)
    (hcap : s.Below) :
    s.useSize = sumUse s.buffList ∧ (∀ n ∈ s.buffList, n.useSize ≤ n.totalSize) ∧
      (s.buffList ≠ [] → s.wNodeIt < s.buffList.length ∧ s.rNodeIt < s.buffList.length) ∧
      ∀ op, (bufferStep s op).isSome := by
  have hstep : ∀ b op c, Sized b → b.Below → bufferStep b op = some c → Sized c := by
    intro b op c hb hbelow hc
    obtain ⟨c', hc', hsized, -⟩ := hb.step_below hbelow op
    obtain rfl := Option.some.inj (hc.symm.trans hc')
    exact hsized
  have hsized : s.Sized := invariant_of_guarded hstep sized_empty hg hs
  refine ⟨hsized.exact hcap, ?_, hsized.iters, ?_⟩
  · intro n hn
    obtain ⟨htotal, huse⟩ := hsized.nodes n hn
    omega
  · intro op
    obtain ⟨c, hc, -⟩ := hsized.step_below hcap op
    exact Option.isSome_iff_exists.mpr ⟨c, hc⟩

/-- A node that is read in part, written full and grown: `Expand` moves what lies in front of the cursor. -/
def sizesSample : List BufferOp :=
  [.writeBuffer (List.replicate 10 1), .readBuffer 4, .writeBuffer (List.replicate 4090 2),
    .writeBuffer (List.replicate 3 3), .getWriteBuffer 2 50, .moveWritePos 20, .moveReadPos 4100, .reserver 9000]

theorem sizesSample_isSome : (exec bufferStep empty sizesSample).isSome := by decide +kernel

def sizesSampleEnd : Buffer := (exec bufferStep empty sizesSample).get sizesSample_isSome

theorem sizes_and_termination_sample :
    sizesSampleEnd.useSize = sumUse sizesSampleEnd.buffList ∧
      (∀ n ∈ sizesSampleEnd.buffList, n.useSize ≤ n.totalSize) ∧
      (sizesSampleEnd.buffList ≠ [] → sizesSampleEnd.wNodeIt < sizesSampleEnd.buffList.length ∧
        sizesSampleEnd.rNodeIt < sizesSampleEnd.buffList.length) ∧
      ∀ op, (bufferStep sizesSampleEnd op).isSome :=
  sizes_and_termination (show Guarded bufferStep (fun b _ => b.Below) empty sizesSample by decide +kernel)
    (Option.some_get _).symm (show sizesSampleEnd.Below by decide +kernel)

end Chaos.Buffer
