import Chaos.BufferLimits

/-!
# Two-phase writes

`GetWriteBuffer` hands out iovecs, the caller fills some of them, and `MoveWritePos` credits that many bytes.
The two loops walk the ring from the write node on: the iovec of a node starts where the node is used up to
and is as long as its room, until the size is spent, and the credit goes to the same places.
-/
namespace Chaos.Buffer

open ByteMemory RingOrder Word32 GuardedRuns

variable {b c d : Buffer} {l done : List BufferNode} {m : BufferNode} {it iovcnt size j : ℕ} {v : Iovec}

/-! ## The iovecs -/

theorem cellAt_next {n r k : ℕ} (hk : k + 1 < n) : cellAt n (next n r) k = cellAt n r (k + 1) := by
  simp only [cellAt, next]
  split_ifs <;> omega

/-- The iovec at place `j` is the free part of the `j`th node of the walk, as far as the size goes; the
iovecs in front of it are as long as their nodes' rooms. -/
structure HandsOut (b : Buffer) (l : List BufferNode) (it size : ℕ) (iov : List Iovec) (j : ℕ) (v : Iovec)
    (m : BufferNode) : Prop where
  node : v.node = cellAt b.buffList.length it j
  base : v.base = m.useSize
  len : v.len = min (nodeRoom m) (size - roomSum (l.take j))
  before : iovTotal (iov.take j) = roomSum (l.take j)

theorem handsOut_getWriteIovLoop (hit : it < b.buffList.length) (hl : b.buffList.rotate it = l ++ done)
    (hroom : size ≤ roomSum l) (hv : (getWriteIovLoop b iovcnt it size)[j]? = some v) :
    ∃ m, l[j]? = some m ∧ HandsOut b l it size (getWriteIovLoop b iovcnt it size) j v m := by
  induction l generalizing it done iovcnt size j with
  | nil =>
    obtain rfl : size = 0 := Nat.eq_zero_of_le_zero hroom
    cases iovcnt <;> simp [getWriteIovLoop] at hv
  | cons m l ih =>
    cases iovcnt with
    | zero => simp [getWriteIovLoop] at hv
    | succ iovcnt =>
    rcases Nat.eq_zero_or_pos size with rfl | hpos
    · simp [getWriteIovLoop] at hv
    have hx : b.node it = m := node_eq_head hit hl
    rw [getWriteIovLoop_succ hx hpos] at hv ⊢
    cases j with
    | zero =>
      obtain rfl := Option.some.inj hv
      refine ⟨m, rfl, ?_, rfl, by simp [roomSum], rfl⟩
      simp [cellAt, hit]
    | succ j =>
      rw [List.getElem?_cons_succ] at hv
      rw [roomSum_cons] at hroom
      have hnext : b.buffList.rotate (next b.buffList.length it) = l ++ (done ++ [m]) := by
        rw [rotate_next_cons (List.cons_append ▸ hl), List.append_assoc]
      obtain ⟨k, hk, hout⟩ := ih (next_lt hit) hnext (by omega) hv
      -- something is left for this iovec, so the first one is as long as the room
      have hmore : nodeRoom m < size := by
        by_contra hle
        have hspent : size - min (nodeRoom m) size = 0 := by omega
        rw [hspent] at hv
        cases iovcnt <;> simp [getWriteIovLoop] at hv
      have hmin : min (nodeRoom m) size = nodeRoom m := Nat.min_eq_left hmore.le
      have hlen : b.buffList.length = l.length + 1 + done.length := by
        have hrot := congrArg List.length hl
        simp only [List.length_rotate, List.length_append, List.length_cons] at hrot
        omega
      have hjl : j < l.length := (List.getElem?_eq_some_iff.mp hk).1
      refine ⟨k, hk, ?_, hout.base, ?_, ?_⟩
      · rw [hout.node, cellAt_next (by omega)]
      · rw [hout.len, hmin, List.take_succ_cons, roomSum_cons]
        congr 1
        omega
      · have hbefore := hout.before
        rw [List.take_succ_cons, List.take_succ_cons, roomSum_cons, ← hbefore, hmin]
        rfl

/-- All the iovecs together are no longer than the rooms of their nodes. -/
theorem iovTotal_le_room (hit : it < b.buffList.length) (hl : b.buffList.rotate it = l ++ done)
    (hroom : size ≤ roomSum l) :
    iovTotal (getWriteIovLoop b iovcnt it size) ≤ roomSum (l.take (getWriteIovLoop b iovcnt it size).length) := by
  induction l generalizing it done iovcnt size with
  | nil =>
    obtain rfl : size = 0 := Nat.eq_zero_of_le_zero hroom
    cases iovcnt <;> simp [getWriteIovLoop, iovTotal]
  | cons m l ih =>
    cases iovcnt with
    | zero => simp [getWriteIovLoop, iovTotal]
    | succ iovcnt =>
    rcases Nat.eq_zero_or_pos size with rfl | hpos
    · simp [getWriteIovLoop, iovTotal]
    have hx : b.node it = m := node_eq_head hit hl
    have hnext : b.buffList.rotate (next b.buffList.length it) = l ++ (done ++ [m]) := by
      rw [rotate_next_cons (List.cons_append ▸ hl), List.append_assoc]
    rw [roomSum_cons] at hroom
    have hrest := @ih (done ++ [m]) (next b.buffList.length it) iovcnt (size - min (nodeRoom m) size)
      (next_lt hit) hnext (by omega)
    rw [getWriteIovLoop_succ hx hpos, List.length_cons, List.take_succ_cons, roomSum_cons]
    simp only [iovTotal, List.map_cons, List.sum_cons] at hrest ⊢
    omega

/-! ## The credit -/

/-- What filling and crediting make of the `j`th node of the walk. -/
theorem getElem?_pour {bytes : List Byte} (h : l[j]? = some m) :
    (pour l bytes)[j]? = some (filled m ((bytes.drop (roomSum (l.take j))).take (nodeRoom m))) := by
  induction l generalizing bytes j with
  | nil => simp at h
  | cons n l ih =>
    rw [pour_cons]
    cases j with
    | zero =>
      obtain rfl := Option.some.inj h
      simp [roomSum]
    | succ j =>
      rw [List.getElem?_cons_succ] at h ⊢
      rw [ih h, List.drop_drop, List.take_succ_cons, roomSum_cons]

/-- The nodes behind the iovecs take in the filled bytes, in their order; no other node changes. -/
structure Credits (c : Buffer) (iov : List Iovec) (bytes : List Byte) (d : Buffer) : Prop where
  handed : ∀ j v, iov[j]? = some v → (d.node v.node).useSize =
    (c.node v.node).useSize + min v.len (bytes.length - iovTotal (iov.take j))
  others : ∀ i, i ∉ iov.map Iovec.node → d.node i = c.node i
  size : d.useSize = c.useSize + bytes.length
  ranges : ∀ i a, (c.node i).useSize ≤ a ∧ a < (d.node i).useSize ↔ ∃ j v, iov[j]? = some v ∧ v.node = i ∧
    v.base ≤ a ∧ a < v.base + min v.len (bytes.length - iovTotal (iov.take j))
  content : ∀ j v, iov[j]? = some v →
    load (d.node v.node).buffer v.base (min v.len (bytes.length - iovTotal (iov.take j))) =
      (bytes.drop (iovTotal (iov.take j))).take v.len

/-- Node by node: the iovec at place `j` starts where its node was used up to, and the node takes in the
part of the bytes that falls to it. -/
theorem Credits.of_filled {iov : List Iovec} {bytes : List Byte}
    (hfilled : ∀ j v, iov[j]? = some v → v.base = (c.node v.node).useSize ∧
      d.node v.node = filled (c.node v.node) ((bytes.drop (iovTotal (iov.take j))).take v.len))
    (hothers : ∀ i, i ∉ iov.map Iovec.node → d.node i = c.node i)
    (hsize : d.useSize = c.useSize + bytes.length) : Credits c iov bytes d := by
  have hlen (j : ℕ) (v : Iovec) : ((bytes.drop (iovTotal (iov.take j))).take v.len).length =
      min v.len (bytes.length - iovTotal (iov.take j)) := by
    rw [List.length_take, List.length_drop]
  have huse (j : ℕ) (v : Iovec) (hv : iov[j]? = some v) : (d.node v.node).useSize =
      (c.node v.node).useSize + min v.len (bytes.length - iovTotal (iov.take j)) := by
    rw [(hfilled j v hv).2, ← hlen]
    rfl
  refine ⟨huse, hothers, hsize, ?_, ?_⟩
  · intro i a
    constructor
    · rintro ⟨hle, hlt⟩
      have hmem : i ∈ iov.map Iovec.node := by
        by_contra hnot
        rw [hothers i hnot] at hlt
        exact Nat.lt_irrefl _ (hle.trans_lt hlt)
      obtain ⟨v, hv, rfl⟩ := List.mem_map.mp hmem
      obtain ⟨j, hj⟩ := List.mem_iff_getElem?.mp hv
      rw [huse j v hj, ← (hfilled j v hj).1] at hlt
      exact ⟨j, v, hj, rfl, (hfilled j v hj).1 ▸ hle, hlt⟩
    · rintro ⟨j, v, hj, rfl, hle, hlt⟩
      rw [huse j v hj, ← (hfilled j v hj).1]
      exact ⟨hle, hlt⟩
  · intro j v hv
    obtain ⟨hbase, hnode⟩ := hfilled j v hv
    rw [hnode, hbase, ← hlen]
    exact load_store_self _ _ _

theorem fillIov_rNodeIt (b : Buffer) (r : ℕ) (iov : List Iovec) (bytes : List Byte) :
    fillIov { b with rNodeIt := r } iov bytes = { fillIov b iov bytes with rNodeIt := r } := by
  induction iov generalizing b bytes with
  | nil => rfl
  | cons v iov ih => exact ih (b.setNode v.node _) (bytes.drop v.len)

/-- The nodes after the filling, from the write node on. -/
theorem Sized.fillIov_rotate (h : c.Sized) (hne : c.buffList ≠ []) {bytes : List Byte}
    (hroom : bytes.length ≤ roomSum (c.buffList.rotate c.wNodeIt))
    (htotal : bytes.length ≤ iovTotal (getWriteIovLoop c iovcnt c.wNodeIt size)) :
    ∃ f, Buffer.fillIov c (getWriteIovLoop c iovcnt c.wNodeIt size) bytes = f ∧ f.wNodeIt = c.wNodeIt ∧
      f.useSize = c.useSize ∧ f.buffList.length = c.buffList.length ∧
      f.buffList.rotate c.wNodeIt = loadAll (c.buffList.rotate c.wNodeIt) bytes := by
  obtain ⟨hw, -⟩ := h.iters hne
  have hsame : getWriteIovLoop { c with rNodeIt := c.wNodeIt } iovcnt c.wNodeIt size =
      getWriteIovLoop c iovcnt c.wNodeIt size :=
    getWriteIovLoop_congr (b := c) (c := { c with rNodeIt := c.wNodeIt }) rfl (fun _ => ⟨rfl, rfl⟩) _ _ _
  obtain ⟨nodes, hfill, hlen, hrotate⟩ :=
    @fillIov_ring { c with rNodeIt := c.wNodeIt } [] (c.buffList.rotate c.wNodeIt) c.wNodeIt iovcnt size bytes
      hw hw rfl (offset_self _ _).symm hroom (hsame ▸ htotal)
  refine ⟨{ c with buffList := nodes }, ?_, rfl, rfl, hlen, hrotate⟩
  rw [hsame] at hfill
  have hback := fillIov_rNodeIt { c with rNodeIt := c.wNodeIt } c.rNodeIt
    (getWriteIovLoop c iovcnt c.wNodeIt size) bytes
  rw [hfill] at hback
  exact hback

theorem roomSum_append (l l' : List BufferNode) : roomSum (l ++ l') = roomSum l + roomSum l' := by
  simp [roomSum]

theorem roomSum_take_le {i j : ℕ} (l : List BufferNode) (h : i ≤ j) : roomSum (l.take i) ≤ roomSum (l.take j) := by
  obtain ⟨rest, hrest⟩ := List.take_prefix_take_left h (l := l)
  rw [← hrest, roomSum_append]
  exact Nat.le_add_right _ _

theorem getElem?_rotate_node {w i : ℕ} (hw : w < b.buffList.length) (hi : i < b.buffList.length) :
    (b.buffList.rotate w)[offset b.buffList.length w i]? = some (b.node i) := by
  rw [getElem?_rotate_offset hw hi, List.getElem?_eq_getElem hi, node_eq_getElem hi]

/-- A bound that is no less than the bytes makes no difference. -/
theorem take_min_of_length_le {bytes : List Byte} {n : ℕ} (h : bytes.length ≤ n) (k : ℕ) :
    bytes.take (min k n) = bytes.take k := by
  rcases Nat.le_total k n with hle | hle
  · rw [Nat.min_eq_left hle]
  · rw [Nat.min_eq_right hle, List.take_of_length_le h, List.take_of_length_le (h.trans hle)]

/-- The bytes poured over the nodes are credited to the iovecs they were filled into. -/
theorem Credits.of_pour (h : c.Sized) (hne : c.buffList ≠ []) {bytes : List Byte}
    (hroom : size ≤ roomSum (c.buffList.rotate c.wNodeIt))
    (htotal : bytes.length ≤ iovTotal (getWriteIovLoop c iovcnt c.wNodeIt size))
    (hlen : d.buffList.length = c.buffList.length)
    (hpour : d.buffList.rotate c.wNodeIt = pour (c.buffList.rotate c.wNodeIt) bytes)
    (hsize : d.useSize = c.useSize + bytes.length) :
    Credits c (getWriteIovLoop c iovcnt c.wNodeIt size) bytes d := by
  obtain ⟨hw, -⟩ := h.iters hne
  have hsplit : c.buffList.rotate c.wNodeIt = c.buffList.rotate c.wNodeIt ++ [] := (List.append_nil _).symm
  have hbytes := htotal.trans (iovTotal_le c iovcnt c.wNodeIt size)
  have hc (i : ℕ) (hi : i < c.buffList.length) := getElem?_rotate_node hw hi
  have hd (i : ℕ) (hi : i < c.buffList.length) :
      (pour (c.buffList.rotate c.wNodeIt) bytes)[offset c.buffList.length c.wNodeIt i]? = some (d.node i) := by
    rw [← hpour, ← hlen]
    exact getElem?_rotate_node (hlen ▸ hw) (hlen ▸ hi)
  refine .of_filled ?_ ?_ hsize
  · intro j v hv
    obtain ⟨m, hm, hout⟩ := handsOut_getWriteIovLoop hw hsplit hroom hv
    have hj : j < c.buffList.length := by
      have hlt := (List.getElem?_eq_some_iff.mp hm).1
      rwa [List.length_rotate] at hlt
    have hnode : v.node < c.buffList.length := hout.node ▸ cellAt_lt hw hj
    have hplace : offset c.buffList.length c.wNodeIt v.node = j := by rw [hout.node, offset_cellAt hw hj]
    have hcm := hc v.node hnode
    rw [hplace, hm, Option.some.injEq] at hcm
    have hdm := hd v.node hnode
    rw [hplace, getElem?_pour hm, Option.some.injEq] at hdm
    refine ⟨hcm ▸ hout.base, ?_⟩
    -- what is left of the bytes is no more than what is left of the size
    have hrest : (bytes.drop (roomSum ((c.buffList.rotate c.wNodeIt).take j))).length ≤
        size - roomSum ((c.buffList.rotate c.wNodeIt).take j) := by
      rw [List.length_drop]
      omega
    rw [← hdm, hcm, hout.before, hout.len, hcm, take_min_of_length_le hrest]
  · intro i hi
    rcases Nat.lt_or_ge i c.buffList.length with hin | hout
    · have hbehind : (getWriteIovLoop c iovcnt c.wNodeIt size).length ≤ offset c.buffList.length c.wNodeIt i := by
        by_contra hlt
        have hv := List.getElem?_eq_getElem (Nat.lt_of_not_le hlt)
        obtain ⟨m, -, hout⟩ := handsOut_getWriteIovLoop hw hsplit hroom hv
        apply hi
        rw [← cellAt_offset hw hin, ← hout.node]
        exact List.mem_map_of_mem (List.mem_of_getElem? hv)
      have hdm := hd i hin
      rw [getElem?_pour (hc i hin), Option.some.injEq] at hdm
      have hspent : bytes.length ≤
          roomSum ((c.buffList.rotate c.wNodeIt).take (offset c.buffList.length c.wNodeIt i)) :=
        (htotal.trans (iovTotal_le_room hw hsplit hroom)).trans (roomSum_take_le _ hbehind)
      rw [← hdm, List.drop_eq_nil_of_le hspent, List.take_nil, filled_nil]
    · rw [node, node, List.getD_eq_default _ _ (hlen ▸ hout), List.getD_eq_default _ _ hout]

/-! ## Exactly when -/

/-- What `GetWriteBuffer` leaves: the ring may have grown, and iovecs are handed out when there is room for
all of them. -/
theorem Sized.getWriteBuffer_cases {s : Buffer} {iov : List Iovec} (h : s.Sized)
    (hget : s.getWriteBuffer iovcnt size = some (iov, c)) :
    c.Sized ∧ c.useSize = s.useSize ∧ (iov = [] ∨ iov = getWriteIovLoop c iovcnt c.wNodeIt (writeSize iovcnt size) ∧
      writeSize iovcnt size ≤ c.getLeftSize) := by
  obtain ⟨ok, e, hres, hsized, huse, -, hleft⟩ := h.reserver (P := fun c => c.useSize = s.useSize)
    (fun c d _ hc hd => (expand_useSize hd).trans hc) rfl (writeSize iovcnt size)
  rw [Buffer.getWriteBuffer, hres] at hget
  cases ok with
  | false =>
    obtain ⟨rfl, rfl⟩ := Prod.mk.inj (Option.some.inj hget)
    exact ⟨hsized, huse, .inl rfl⟩
  | true =>
    obtain ⟨rfl, rfl⟩ := Prod.mk.inj (Option.some.inj hget)
    exact ⟨hsized, huse, .inr ⟨rfl, hleft rfl⟩⟩

/-- No credit leaves a size that 32 bits do not hold. -/
theorem Sized.credits_lt (h : c.Sized) {iov : List Iovec} {bytes : List Byte}
    (hmove : (Buffer.fillIov c iov bytes).moveWritePos bytes.length = some d) (hcredits : Credits c iov bytes d) :
    c.useSize + bytes.length < word32 := by
  obtain ⟨d', hd', hsized⟩ := (h.fillIov iov bytes).step_any (.moveWritePos bytes.length)
  obtain rfl := Option.some.inj (hmove.symm.trans hd')
  exact hcredits.size ▸ hsized.small

/-- The credit on a ring that shows room for what was handed out. -/
theorem Sized.credits (h : c.Sized) (hne : c.buffList ≠ []) (hleft : size ≤ c.getLeftSize) {bytes : List Byte}
    (htotal : bytes.length ≤ iovTotal (getWriteIovLoop c iovcnt c.wNodeIt size))
    (hbelow : c.useSize + bytes.length < word32) :
    ∃ d, (Buffer.fillIov c (getWriteIovLoop c iovcnt c.wNodeIt size) bytes).moveWritePos bytes.length = some d ∧
      Credits c (getWriteIovLoop c iovcnt c.wNodeIt size) bytes d := by
  have hbytes := htotal.trans (iovTotal_le c iovcnt c.wNodeIt size)
  have hroom : size ≤ roomSum (c.buffList.rotate c.wNodeIt) := by
    rw [roomSum_rotate]
    exact hleft.trans h.left_le
  obtain ⟨f, hfill, hw, hfuse, hlen, hrotate⟩ := h.fillIov_rotate hne (hbytes.trans hroom) htotal
  have hsized : f.Sized := hfill ▸ h.fillIov (getWriteIovLoop c iovcnt c.wNodeIt size) bytes
  have hnodes : f.buffList ≠ [] := fun hnil =>
    hne (List.eq_nil_of_length_eq_zero (hlen.symm.trans (congrArg List.length hnil)))
  have hfleft : bytes.length ≤ f.getLeftSize := by
    rw [getLeftSize, hlen, hfuse]
    exact hbytes.trans hleft
  have hfroom := hfleft.trans hsized.left_le
  have hwrap : (f.node f.wNodeIt).useSize + bytes.length < word32 := by
    have hall := roomSum_add_sumUse hsized.nodes
    have hcap := hsized.capacity_le
    have hnode := hsized.writeNode_le
    rcases Nat.eq_zero_or_pos bytes.length with hnone | hpos
    · have hle := (hsized.node (hsized.iters hnodes).1).2
      rw [bufferInitSize] at hle
      rw [hnone, word32]
      omega
    · have hexact : f.useSize = sumUse f.buffList := hsized.sum.trans (Nat.mod_eq_of_lt (by omega))
      omega
  obtain ⟨d, hloop, hgrow, hgrown, huse⟩ := hsized.moveWriteLoop hnodes hfroom hwrap
  have hsize : (if f.getLeftSize > bytes.length then bytes.length else f.getLeftSize) = bytes.length := by
    split_ifs <;> omega
  refine ⟨d, ?_, ?_⟩
  · rw [hfill, Buffer.moveWritePos, hsize]
    exact hloop
  · refine .of_pour h hne hroom htotal (hgrown.length.trans hlen) ?_ ?_
    · rw [← hw, hgrow, hw, hrotate]
      rfl
    · rw [huse, hfuse, add32, Nat.mod_eq_of_lt hbelow]

/-- On every reachable buffer the bytes that were filled are credited, unless the size of the full ring
does not fit into 32 bits. -/
theorem two_phase_credits_iff {ops : List IoOp} {s : Buffer} (hs : exec ioStep empty ops = some s)
    {iov : List Iovec} (hget : s.getWriteBuffer iovcnt size = some (iov, c)) {bytes : List Byte}
    (hfill : bytes.length ≤ iovTotal iov) :
    (∃ d, (fillIov c iov bytes).moveWritePos bytes.length = some d ∧ Credits c iov bytes d) ↔
      s.useSize + bytes.length < word32 := by
  obtain ⟨hsized, huse, hiov⟩ := (sized_of_exec hs).getWriteBuffer_cases hget
  rw [← huse]
  refine ⟨fun ⟨d, hd, hcredits⟩ => hsized.credits_lt hd hcredits, fun hbelow => ?_⟩
  by_cases hnone : iov = []
  · subst hnone
    obtain rfl : bytes = [] := List.eq_nil_of_length_eq_zero (Nat.eq_zero_of_le_zero hfill)
    refine ⟨c, ?_, .of_filled (by simp) (fun _ _ => rfl) rfl⟩
    rw [fillIov_done, Buffer.moveWritePos]
    simp [Buffer.moveWriteLoop]
  · obtain ⟨rfl, hleft⟩ := hiov.resolve_left hnone
    have hne : c.buffList ≠ [] := by
      intro hnil
      have hzero := hleft.trans hsized.left_le
      rw [hnil] at hzero
      apply hnone
      rw [Nat.eq_zero_of_le_zero hzero]
      cases iovcnt <;> simp [getWriteIovLoop]
    exact hsized.credits hne hleft hfill hbelow

/-- Iovecs into a node that is read in part and a new one, and bytes that reach into the second. -/
def twoPhaseSample : List IoOp :=
  [.op (.writeBuffer (List.replicate 4090 1)), .op (.readBuffer 4), .op (.getWriteBuffer 2 5000)]

theorem twoPhaseSample_isSome : (exec ioStep empty twoPhaseSample).isSome := by decide +kernel

def twoPhaseSampleEnd : Buffer := (exec ioStep empty twoPhaseSample).get twoPhaseSample_isSome

theorem twoPhaseSampleEnd_isSome : (twoPhaseSampleEnd.getWriteBuffer 2 5000).isSome := by decide +kernel

def twoPhaseSampleOut : List Iovec × Buffer := (twoPhaseSampleEnd.getWriteBuffer 2 5000).get twoPhaseSampleEnd_isSome

theorem twoPhaseSampleOut_eq :
    twoPhaseSampleEnd.getWriteBuffer 2 5000 = some (twoPhaseSampleOut.1, twoPhaseSampleOut.2) := by
  rw [Prod.mk.eta]
  exact (Option.some_get _).symm

def twoPhaseSampleBytes : List Byte := List.replicate 4100 7

theorem two_phase_credits_iff_sample :
    (∃ d, (fillIov twoPhaseSampleOut.2 twoPhaseSampleOut.1 twoPhaseSampleBytes).moveWritePos
        twoPhaseSampleBytes.length = some d ∧
        Credits twoPhaseSampleOut.2 twoPhaseSampleOut.1 twoPhaseSampleBytes d) ↔
      twoPhaseSampleEnd.useSize + twoPhaseSampleBytes.length < word32 :=
  @two_phase_credits_iff twoPhaseSampleOut.2 2 5000 twoPhaseSample twoPhaseSampleEnd (Option.some_get _).symm
    twoPhaseSampleOut.1 twoPhaseSampleOut_eq twoPhaseSampleBytes (by decide +kernel)

/-! ## The full ring -/

theorem iovTotal_eq (hit : it < b.buffList.length) (hl : b.buffList.rotate it = l ++ done)
    (hroom : size ≤ roomSum l) (hcnt : l.length ≤ iovcnt) : iovTotal (getWriteIovLoop b iovcnt it size) = size := by
  induction l generalizing it done iovcnt size with
  | nil =>
    obtain rfl : size = 0 := Nat.eq_zero_of_le_zero hroom
    cases iovcnt <;> rfl
  | cons m l ih =>
    cases iovcnt with
    | zero => cases hcnt
    | succ iovcnt =>
    rcases Nat.eq_zero_or_pos size with rfl | hpos
    · rfl
    have hnext : b.buffList.rotate (next b.buffList.length it) = l ++ (done ++ [m]) := by
      rw [rotate_next_cons (List.cons_append ▸ hl), List.append_assoc]
    rw [roomSum_cons] at hroom
    have hrest := @ih (done ++ [m]) (next b.buffList.length it) iovcnt (size - min (nodeRoom m) size)
      (next_lt hit) hnext (by omega) (Nat.le_of_succ_le_succ hcnt)
    rw [getWriteIovLoop_succ (node_eq_head hit hl) hpos]
    simp only [iovTotal, List.map_cons, List.sum_cons] at hrest ⊢
    omega

/-- A node's bytes in use leave room for 2^32 - 4096 more in the ring at its limit, and `GetWriteBuffer`
hands all of it out. -/
theorem Sized.getWriteBuffer_limit {s : Buffer} (h : s.Sized) (huse : s.useSize = bufferInitSize)
    (hcnt : 1048576 ≤ iovcnt) (hsize : writeSize iovcnt size = word32 - bufferInitSize) :
    ∃ iov c, s.getWriteBuffer iovcnt size = some (iov, c) ∧ iovTotal iov = word32 - bufferInitSize := by
  obtain ⟨ok, c, hres, hsized, hcuse, -, hleft⟩ := h.reserver (P := fun c => c.useSize = bufferInitSize)
    (fun c d _ hc hd => (expand_useSize hd).trans hc) huse (writeSize iovcnt size)
  cases ok with
  | false =>
    obtain ⟨hend, hless⟩ := expandLoop_false hres
    have hlimit := length_of_expand_none hend
    have hcap := hsized.capacity_le
    have hfull : c.buffList.length * bufferInitSize = word32 := by
      rw [bufferInitSize, word32] at *
      omega
    rw [hsize, getLeftSize, hfull, Nat.mod_self, hcuse] at hless
    exact absurd hless (by decide)
  | true =>
    refine ⟨_, c, by rw [Buffer.getWriteBuffer, hres], ?_⟩
    have hroom := (hleft rfl).trans hsized.left_le
    rw [hsize] at hroom ⊢
    have hne : c.buffList ≠ [] := by
      intro hnil
      rw [hnil] at hroom
      exact absurd hroom (by decide)
    have hsplit : c.buffList.rotate c.wNodeIt = c.buffList.rotate c.wNodeIt ++ [] := (List.append_nil _).symm
    refine iovTotal_eq (hsized.iters hne).1 hsplit ?_ ?_
    · rw [roomSum_rotate]
      exact hroom
    · rw [List.length_rotate]
      exact hsized.count.trans hcnt

/-- One full node, iovecs for the 2^32 - 4096 bytes behind it, and all of them filled: `m_useSize` is 0 then. -/
theorem not_two_phase_credits :
    ¬ ∀ (ops : List IoOp) (s : Buffer), exec ioStep empty ops = some s → s.Below →
      ∀ (iovcnt size : ℕ) (iov : List Iovec) (c : Buffer), size < word32 →
        s.getWriteBuffer iovcnt size = some (iov, c) → ∀ bytes : List Byte, bytes.length ≤ iovTotal iov →
          ∃ d, (fillIov c iov bytes).moveWritePos bytes.length = some d ∧ Credits c iov bytes d := by
  intro hall
  have hsome : (exec ioStep empty [.op (.writeBuffer (List.replicate 4096 1))]).isSome := by decide +kernel
  obtain ⟨s, hs⟩ := Option.isSome_iff_exists.mp hsome
  have huse : s.useSize = bufferInitSize := by
    have hrun : (exec ioStep empty [.op (.writeBuffer (List.replicate 4096 1))]).map useSize = some bufferInitSize := by
      decide +kernel
    rw [hs] at hrun
    exact Option.some.inj hrun
  have hbelow : s.Below := by
    have hrun : ∀ t ∈ exec ioStep empty [.op (.writeBuffer (List.replicate 4096 1))], t.Below := by decide +kernel
    exact hrun s hs
  have hsized := sized_of_exec hs
  have hwrite : writeSize 2097151 (word32 - bufferInitSize) = word32 - bufferInitSize := by decide
  obtain ⟨iov, c, hget, htotal⟩ := hsized.getWriteBuffer_limit huse (by decide) hwrite
  obtain ⟨hcsized, hcuse, -⟩ := hsized.getWriteBuffer_cases hget
  obtain ⟨d, hd, hcredits⟩ := hall _ s hs hbelow 2097151 (word32 - bufferInitSize) iov c (by decide) hget
    (List.replicate (word32 - bufferInitSize) 1) (by rw [List.length_replicate, htotal])
  have hlt := hcsized.credits_lt hd hcredits
  rw [List.length_replicate, hcuse, huse] at hlt
  exact absurd hlt (by decide)

end Chaos.Buffer
