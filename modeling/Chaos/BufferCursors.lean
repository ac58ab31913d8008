import Chaos.BufferSizes

/-!
# The read cursors of the buffer

Only the node under the read iterator can have its cursor away from its start. A write that reaches this node
once the ring has come round, or that finds it under both iterators, counts its free space as if the cursor
stood at the start; `SafeWrite` says when the node takes no more than lies behind what is unread.
-/
namespace Chaos.Buffer

open ByteMemory RingOrder Word32 GuardedRuns

/-- The read node is inside its block, the cursors of the others stand at the start. -/
def Cursors (b : Buffer) : Prop :=
  ∀ x xs, b.ring = x :: xs → x.readCursor + x.useSize ≤ bufferInitSize ∧ ∀ m ∈ xs, m.readCursor = 0

/-- The free space of the nodes from the write node on, up to the one before the read node. -/
def roomToReader (b : Buffer) : ℕ :=
  roomSum ((b.buffList.rotate b.wNodeIt).take (offset b.buffList.length b.wNodeIt b.rNodeIt))

/-- `k` bytes from the write node on end before they make the read node pass its block. -/
def SafeWrite (b : Buffer) (k : ℕ) : Prop :=
  let n := b.node b.rNodeIt
  n.readCursor = 0 ∨ k ≤ b.roomToReader + (n.totalSize - n.useSize - n.readCursor)

instance (b : Buffer) (k : ℕ) : Decidable (b.SafeWrite k) := inferInstanceAs (Decidable (_ ∨ _))

/-- Writing is safe once there is room for the bytes, and the comparison of `MoveWritePos` does not wrap. -/
def cursorOk (b : Buffer) : BufferOp → Prop
  | .writeBuffer data => match b.reserver data.length with
    | some (true, c) => c.SafeWrite data.length
    | _ => True
  | .moveWritePos size =>
    (b.node b.wNodeIt).useSize + b.moveSize size < word32 ∧ b.SafeWrite (b.moveSize size)
  | _ => True

instance (b : Buffer) (op : BufferOp) : Decidable (cursorOk b op) := by
  unfold cursorOk
  split <;> try infer_instance
  split <;> infer_instance

variable {b c : Buffer} {x : BufferNode} {xs : List BufferNode} {k : ℕ}

theorem cursors_of_zero (h : ∀ n ∈ b.buffList, n.readCursor = 0 ∧ n.useSize ≤ bufferInitSize) : b.Cursors := by
  intro x xs hring
  have hmem (m : BufferNode) (hm : m ∈ x :: xs) : m ∈ b.buffList := by
    rw [← hring] at hm
    exact List.mem_rotate.mp hm
  constructor
  · obtain ⟨hcursor, huse⟩ := h x (hmem x List.mem_cons_self)
    omega
  · intro m hm
    exact (h m (hmem m (List.mem_cons_of_mem x hm))).1

/-! ## Growing the ring and consuming bytes -/

theorem Cursors.insert (h : b.Cursors) {ys zs : List BufferNode} (hring : b.ring = ys ++ zs) (hys : ys ≠ [])
    (hc : c.ring = ys ++ newNode :: zs) : c.Cursors := by
  obtain ⟨y, ys, rfl⟩ := List.exists_cons_of_ne_nil hys
  obtain ⟨hin, hzero⟩ := h y (ys ++ zs) hring
  intro x xs hx
  obtain ⟨rfl, rfl⟩ := List.cons.inj (hc.symm.trans hx)
  refine ⟨hin, ?_⟩
  intro m hm
  rcases List.mem_append.mp hm with hm | hm
  · exact hzero m (List.mem_append_left _ hm)
  · rcases List.mem_cons.mp hm with rfl | hm
    · rfl
    · exact hzero m (List.mem_append_right _ hm)

theorem Cursors.expand (hs : b.Sized) (h : b.Cursors) (he : b.expand = some c) : c.Cursors := by
  obtain ⟨-, hpass⟩ := pass_of_expand he
  cases hpass with
  | first hnil =>
    apply cursors_of_zero
    intro n hn
    obtain rfl := List.mem_singleton.mp hn
    exact ⟨rfl, by decide⟩
  | moved hnil heq real hreal hlt =>
    -- what is unread ends inside the block, so there is nothing to move
    obtain ⟨hw, hr⟩ := hs.iters hnil
    obtain ⟨x, xs, hx⟩ := List.exists_cons_of_ne_nil (show b.ring ≠ [] by simpa [ring] using hnil)
    obtain ⟨-, hn, htotal, -⟩ := hs.head hx
    obtain ⟨hin, -⟩ := h x xs hx
    rw [heq, hn] at hreal hlt
    rw [htotal, sub32_of_le (by omega)] at hreal
    omega
  | front hnil heq =>
    obtain ⟨hw, hr⟩ := hs.iters hnil
    refine h.insert (List.append_nil b.ring).symm (by simpa [ring] using hnil) ?_
    simp only [ring]
    rw [heq]
    exact rotate_insertAt_self hr newNode
  | behind hnil =>
    obtain ⟨hw, hr⟩ := hs.iters hnil
    obtain ⟨ys, zs, hyz, hlen, hins⟩ := rotate_insertAt_after hr hw newNode
    refine h.insert hyz ?_ hins
    rw [← List.length_pos_iff, hlen]
    exact Nat.succ_pos _

theorem Cursors.consume (hs : b.Sized) (hexact : b.useSize = sumUse b.buffList) (hx : b.ring = x :: xs)
    (hk : k ≤ x.useSize) (h : b.Cursors) : (b.consume k).Cursors := by
  obtain ⟨hne, hn, htotal, huse⟩ := hs.head hx
  obtain ⟨hin, hzero⟩ := h x xs hx
  have hle : k ≤ b.useSize := by
    rw [hexact, ← sumUse_ring, hx, sumUse_cons]
    omega
  rcases Nat.lt_or_eq_of_le hk with hlt | heq
  · have hring := (consume_ring (hs.iters hne).2 hle hx hn).1 hlt
    intro y ys hy
    obtain ⟨rfl, rfl⟩ := List.cons.inj (hring.symm.trans hy)
    refine ⟨?_, hzero⟩
    simp only [consumed, if_neg (Nat.sub_ne_zero_of_lt hlt)]
    omega
  · -- the drained node goes back to its start, and with it every node stands there
    apply cursors_of_zero
    intro n hmem
    rw [consume_buffList hn] at hmem
    rw [← List.mem_rotate (n := b.rNodeIt), ring_set (hs.iters hne).2 hx] at hmem
    rcases List.mem_cons.mp hmem with rfl | hm
    · simp [consumed, heq]
    · have hold : n ∈ b.buffList := List.mem_rotate.mp (show n ∈ b.ring by simp [hx, hm])
      exact ⟨hzero n hm, (hs.nodes n hold).2⟩

/-! ## Writing -/

/-- The ring of the reader from the ring of the writer. -/
theorem ring_of_rotate {before after : List BufferNode} (hw : b.wNodeIt < b.buffList.length) (h : b.buffList.rotate b.wNodeIt = before ++ x :: after)
    (hlen : before.length = offset b.buffList.length b.wNodeIt b.rNodeIt) : b.ring = x :: (after ++ before) := by
  have hturn : b.ring = (b.buffList.rotate b.wNodeIt).rotate before.length := by
    rw [List.rotate_rotate, hlen, ring, offset]
    split
    · congr 1
      omega
    · rw [show b.wNodeIt + (b.rNodeIt + b.buffList.length - b.wNodeIt) = b.buffList.length + b.rNodeIt by omega,
        ← List.rotate_rotate, List.rotate_length]
  rw [hturn, h, List.rotate_append_length_eq, List.cons_append]

theorem growAll_append (l l' : List BufferNode) (k : ℕ) :
    growAll (l ++ l') k = growAll l k ++ growAll l' (k - roomSum l) := by
  induction l generalizing k with
  | nil => simp [growAll, roomSum]
  | cons n l ih =>
    rw [List.cons_append, growAll, ih, growAll, roomSum_cons, List.cons_append]
    congr 3
    omega

theorem cursor_growAll {l : List BufferNode} (h : ∀ n ∈ l, n.readCursor = 0) (k : ℕ) :
    ∀ n ∈ growAll l k, n.readCursor = 0 := by
  induction l generalizing k with
  | nil => exact h
  | cons n l ih =>
    obtain ⟨hn, hl⟩ := List.forall_mem_cons.mp h
    exact List.forall_mem_cons.mpr ⟨hn, ih hl _⟩

theorem SameShape.cursor {l l' : List BufferNode} (h : SameShape l l') (hl : ∀ n ∈ l', n.readCursor = 0) :
    ∀ n ∈ l, n.readCursor = 0 := by
  intro n hn
  have hmem : shape n ∈ l'.map shape := h ▸ List.mem_map_of_mem hn
  obtain ⟨m, hm, heq⟩ := List.mem_map.mp hmem
  exact (congrArg Prod.fst heq).symm.trans (hl m hm)

/-- A safe write keeps the cursors. -/
theorem Cursors.grown (hs : b.Sized) (h : b.Cursors) (hne : b.buffList ≠ []) (hsafe : b.SafeWrite k)
    (hg : Grown b k c) : c.Cursors := by
  obtain ⟨hw, hr⟩ := hs.iters hne
  -- the nodes from the write node on: those in front of the read node, the read node, the others
  obtain ⟨before, x, after, hsplit, hlen, hbefore⟩ : ∃ before x after,
      b.buffList.rotate b.wNodeIt = before ++ x :: after ∧
      before.length = offset b.buffList.length b.wNodeIt b.rNodeIt ∧ roomSum before = b.roomToReader := by
    have hlt : offset b.buffList.length b.wNodeIt b.rNodeIt < (b.buffList.rotate b.wNodeIt).length := by
      rw [List.length_rotate]
      exact offset_lt hw hr
    refine ⟨_, _, _, (List.take_append_drop _ _).symm.trans (by rw [List.drop_eq_getElem_cons hlt]), ?_, rfl⟩
    rw [List.length_take]
    omega
  have hring := ring_of_rotate hw hsplit hlen
  obtain ⟨-, hn, htotal, huse⟩ := hs.head hring
  obtain ⟨hin, hzero⟩ := h x (after ++ before) hring
  have hshape := hg.shape
  rw [hsplit, growAll_append, growAll, SameShape, List.map_append, List.map_cons] at hshape
  obtain ⟨before', rest, hrotate, hbefore', hrest⟩ := List.map_eq_append_iff.mp hshape
  obtain ⟨x', after', rfl, hx', hafter'⟩ := List.map_eq_cons_iff.mp hrest
  simp only [shape, growNode, Prod.mk.injEq] at hx'
  obtain ⟨hcursor, -, huse'⟩ := hx'
  have hlen' : before'.length = offset c.buffList.length b.wNodeIt c.rNodeIt := by
    have hmap := congrArg List.length hbefore'
    rw [List.length_map, List.length_map, length_growAll] at hmap
    rw [hmap, hlen, hg.length, hg.rNodeIt]
  have hring' : c.ring = x' :: (after' ++ before') :=
    @ring_of_rotate { c with wNodeIt := b.wNodeIt } x' before' after' (hg.length ▸ hw) hrotate hlen'
  intro y ys hy
  obtain ⟨rfl, rfl⟩ := List.cons.inj (hring'.symm.trans hy)
  constructor
  · rw [hcursor, huse', hbefore, nodeRoom]
    rcases hsafe with hstart | hroom
    · rw [hn] at hstart
      omega
    · rw [hn] at hroom
      omega
  · intro m hm
    rcases List.mem_append.mp hm with hm | hm
    · exact SameShape.cursor hafter' (cursor_growAll (fun n hn => hzero n (List.mem_append_left _ hn)) _) m hm
    · exact SameShape.cursor hbefore' (cursor_growAll (fun n hn => hzero n (List.mem_append_right _ hn)) _) m hm

/-! ## Runs -/

theorem cursors_empty : empty.Cursors := cursors_of_zero (by simp [empty])

theorem step_of_cursorOk (hs : b.Sized) (h : b.Cursors) (op : BufferOp) (hok : cursorOk b op) :
    ∃ c, bufferStep b op = some c ∧ c.Sized ∧ c.Cursors := by
  have hop : WriteKeeps Cursors b op := by
    cases op with
    | writeBuffer data =>
      intro c d hres hc hcursors hne hg
      simp only [cursorOk, hres] at hok
      exact hcursors.grown hc hne hok hg
    | moveWritePos size => exact ⟨hok.1, fun d hne hg => h.grown hs hne hok.2 hg⟩
    | readBuffer _ | readNode | readBufferIov _ _ | moveReadPos _ | getWriteBuffer _ _ | reserver _ => trivial
  obtain ⟨c, hc, hsized, hcursors, -⟩ := hs.step (fun _ _ hc h he => h.expand hc he)
    (fun _ _ _ _ hc hexact hx hk h => h.consume hc hexact hx hk) h op hop
  exact ⟨c, hc, hsized, hcursors⟩

theorem Cursors.inside (hs : b.Sized) (h : b.Cursors) {n : BufferNode} (hn : n ∈ b.buffList) :
    n.readCursor + n.useSize ≤ n.totalSize := by
  obtain ⟨htotal, huse⟩ := hs.nodes n hn
  have hmem : n ∈ b.ring := List.mem_rotate.mpr hn
  obtain ⟨x, xs, hx⟩ := List.exists_cons_of_ne_nil (List.ne_nil_of_mem hmem)
  obtain ⟨hin, hzero⟩ := h x xs hx
  rw [hx] at hmem
  rcases List.mem_cons.mp hmem with rfl | hm
  · omega
  · have hcursor := hzero n hm
    omega

/-- Then the iovecs of `ReadBuffer` end inside their nodes. -/
theorem readIovLoop_inside (h : ∀ n ∈ b.buffList, n.readCursor + n.useSize ≤ n.totalSize) (iovcnt it size : ℕ) :
    ∀ v ∈ readIovLoop b iovcnt it size, v.base + v.len ≤ (b.node v.node).totalSize := by
  have hnode (i : ℕ) : (b.node i).readCursor + (b.node i).useSize ≤ (b.node i).totalSize := by
    rcases Nat.lt_or_ge i b.buffList.length with hi | hi
    · rw [node_eq_getElem hi]
      exact h _ (List.getElem_mem hi)
    · rw [node, List.getD_eq_default _ _ hi]
      decide
  induction iovcnt generalizing it size with
  | zero => simp [readIovLoop]
  | succ iovcnt ih =>
    rw [readIovLoop]
    split
    · simp
    · refine List.forall_mem_cons.mpr ⟨?_, ih _ _⟩
      have hin := hnode it
      dsimp only
      split_ifs <;> omega

/-- In every run whose writes are safe no node is read past its block. -/
theorem cursors_inside {ops : List BufferOp} {s : Buffer} (hg : Guarded bufferStep cursorOk empty ops)
    (hs : exec bufferStep empty ops = some s) :
    (∀ n ∈ s.buffList, n.readCursor + n.useSize ≤ n.totalSize) ∧
      ∀ iovcnt size, ∀ v ∈ s.readBufferIov iovcnt size, v.base + v.len ≤ (s.node v.node).totalSize := by
  have hstep : ∀ b op c, Sized b ∧ Cursors b → cursorOk b op → bufferStep b op = some c → Sized c ∧ Cursors c := by
    intro b op c hb hok hc
    obtain ⟨c', hc', hinv⟩ := step_of_cursorOk hb.1 hb.2 op hok
    obtain rfl := Option.some.inj (hc.symm.trans hc')
    exact hinv
  obtain ⟨hsized, hcursors⟩ := invariant_of_guarded hstep ⟨sized_empty, cursors_empty⟩ hg hs
  have hinside : ∀ n ∈ s.buffList, n.readCursor + n.useSize ≤ n.totalSize := fun n hn => hcursors.inside hsized hn
  exact ⟨hinside, fun iovcnt size => readIovLoop_inside hinside iovcnt s.rNodeIt _⟩

/-- Writes that come round to a partly read node and stop in front of what is unread there. -/
def cursorSample : List BufferOp :=
  [.writeBuffer (List.replicate 4000 1), .readBuffer 100, .getWriteBuffer 2 90, .moveWritePos 90, .reserver 5000,
    .writeBuffer (List.replicate 4000 2), .moveReadPos 4095, .readNode, .readBufferIov 2 50]

theorem cursorSample_isSome : (exec bufferStep empty cursorSample).isSome := by decide +kernel

def cursorSampleEnd : Buffer := (exec bufferStep empty cursorSample).get cursorSample_isSome

theorem cursors_inside_sample :
    (∀ n ∈ cursorSampleEnd.buffList, n.readCursor + n.useSize ≤ n.totalSize) ∧
      ∀ iovcnt size, ∀ v ∈ cursorSampleEnd.readBufferIov iovcnt size,
        v.base + v.len ≤ (cursorSampleEnd.node v.node).totalSize :=
  cursors_inside (show Guarded bufferStep cursorOk empty cursorSample by decide +kernel) (Option.some_get _).symm

/-- Ten bytes written, four read and the node written full: it is read four bytes past its block. -/
theorem not_cursors_inside :
    ¬ ∀ (ops : List BufferOp) (s : Buffer), exec bufferStep empty ops = some s →
      ∀ n ∈ s.buffList, n.readCursor + n.useSize ≤ n.totalSize := by
  intro h
  have hrun := h [.writeBuffer (List.replicate 10 1), .readBuffer 4, .writeBuffer (List.replicate 4090 2)] _
    (Option.some_get (by decide +kernel)).symm
  revert hrun
  decide +kernel

end Chaos.Buffer
