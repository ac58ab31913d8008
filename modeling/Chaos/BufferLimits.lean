import Chaos.BufferSizes

/-!
# The buffer at its limit

`Expand` refuses a node more once `m_buffList.size() * BUFFER_INIT_SIZE >= 0xFFFFFFFF`, so it admits the one
that makes 2^32 bytes, which `GetLeftSize` and `m_useSize` cannot hold. Every operation still returns and
keeps `Sized`; the sizes are exact except on a ring of that length that is empty or full.
-/
namespace Chaos.Buffer

open ByteMemory RingOrder Word32 GuardedRuns

variable {b : Buffer}

/-- The nodes that `Expand` admits: with one more it refuses. -/
def maxNodes : ℕ := 1048576

/-! ## Every operation returns -/

/-- Where the comparison of `MoveWritePos` wraps, the write node holds all that is used and its counter
wraps with `m_useSize`. -/
theorem Sized.moveWritePos_wrap (h : b.Sized) {size : ℕ}
    (hwrap : word32 ≤ (b.node b.wNodeIt).useSize + b.moveSize size) :
    ∃ d, b.moveWritePos size = some d ∧ d.Sized := by
  have hroom := (b.moveSize_le size).trans h.left_le
  have hall := roomSum_add_sumUse h.nodes
  have hcap := h.capacity_le
  have hle := h.writeNode_le
  have hsum : (b.node b.wNodeIt).useSize + b.moveSize size = word32 := by omega
  have hne : b.buffList ≠ [] := by
    intro hnil
    rw [hnil] at hall hroom
    simp [sumUse] at hall
    have hword : 0 < word32 := by decide
    rw [hnil, sumUse_nil] at hle
    omega
  obtain ⟨hw, hr⟩ := h.iters hne
  obtain ⟨htotal, huse⟩ := h.node hw
  have hpos : 0 < b.moveSize size := by
    rw [bufferInitSize] at huse
    rw [word32] at hsum
    omega
  have hzero : add32 (b.node b.wNodeIt).useSize (b.moveSize size) = 0 := by
    rw [add32, hsum, Nat.mod_self]
  have hsize : add32 b.useSize (b.moveSize size) = 0 := by
    rw [add32, h.sum, Nat.mod_add_mod, show sumUse b.buffList = (b.node b.wNodeIt).useSize by omega, hsum,
      Nat.mod_self]
  set d := ({ b with useSize := 0 }.setNode b.wNodeIt { b.node b.wNodeIt with useSize := 0 }).getNextWNodeIt
    with hd
  have hrun : b.moveWritePos size = some d := by
    have hstep : Buffer.moveWriteLoop (b.buffList.length + 1) b (b.moveSize size) =
        Buffer.moveWriteLoop b.buffList.length d 0 := by
      simp only [Buffer.moveWriteLoop, if_pos hpos, hzero, Nat.not_lt_zero, gt_iff_lt, if_false, hsize, Nat.sub_self]
      rfl
    rw [Buffer.moveWritePos]
    refine hstep.trans ?_
    cases b.buffList.length <;> simp [Buffer.moveWriteLoop]
  have hlist : d.buffList = b.buffList.set b.wNodeIt { b.node b.wNodeIt with useSize := 0 } := rfl
  have hlen : d.buffList.length = b.buffList.length := by rw [hlist, List.length_set]
  refine ⟨d, hrun, ?_, ?_, ?_, ?_, ?_⟩
  · intro n hn
    rw [hlist] at hn
    rcases List.mem_or_eq_of_mem_set hn with hn | rfl
    · exact h.nodes n hn
    · exact ⟨htotal, Nat.zero_le _⟩
  · have hset : _ = _ + 0 := sumUse_set hw { b.node b.wNodeIt with useSize := 0 }
    rw [← node_eq_getElem hw, ← hlist] at hset
    have hnone : sumUse d.buffList = 0 := by omega
    rw [hnone]
    rfl
  · rw [hlen]
    exact h.count
  · intro hnil
    rw [hnil] at hlen
    exact absurd (List.eq_nil_of_length_eq_zero hlen.symm) hne
  · intro _
    have hnext : d.wNodeIt = next d.buffList.length b.wNodeIt := rfl
    rw [hnext, hlen]
    exact ⟨next_lt hw, hr⟩

/-- Every operation returns and keeps the sizes, at the limit too. -/
theorem Sized.step_any (h : b.Sized) (op : BufferOp) : ∃ c, bufferStep b op = some c ∧ c.Sized := by
  by_cases hwrap : ∀ size, op = .moveWritePos size → (b.node b.wNodeIt).useSize + b.moveSize size < word32
  · have hop : WriteKeeps (fun _ => True) b op := by
      cases op with
      | writeBuffer data => exact fun _ _ _ _ _ _ _ => trivial
      | moveWritePos size => exact ⟨hwrap size rfl, fun _ _ _ => trivial⟩
      | readBuffer _ | readNode | readBufferIov _ _ | moveReadPos _ | getWriteBuffer _ _ | reserver _ => trivial
    obtain ⟨c, hc, hsized, -, -⟩ :=
      h.step (fun _ _ _ _ _ => trivial) (fun _ _ _ _ _ _ _ _ _ => trivial) trivial op hop
    exact ⟨c, hc, hsized⟩
  · push Not at hwrap
    obtain ⟨size, rfl, hwrap⟩ := hwrap
    exact h.moveWritePos_wrap hwrap

/-- What a socket puts into iovecs changes no size. -/
theorem Sized.fillIov (h : b.Sized) (iov : List Iovec) (bytes : List Byte) : (fillIov b iov bytes).Sized := by
  induction iov generalizing b bytes with
  | nil => exact h
  | cons v iov ih =>
    refine @ih (b.setNode v.node _) ?_ (bytes.drop v.len)
    rcases Nat.lt_or_ge v.node b.buffList.length with hv | hv
    · set n := { b.node v.node with buffer := store (b.node v.node).buffer v.base (bytes.take v.len) } with hn
      obtain ⟨htotal, huse⟩ := h.node hv
      have hsum : sumUse (b.buffList.set v.node n) = sumUse b.buffList := by
        have hset := sumUse_set hv n
        rw [← node_eq_getElem hv] at hset
        exact Nat.add_right_cancel hset
      have hlen : (b.buffList.set v.node n).length = b.buffList.length := List.length_set
      refine ⟨?_, ?_, ?_, ?_, ?_⟩
      · intro m hm
        rcases List.mem_or_eq_of_mem_set hm with hm | rfl
        · exact h.nodes m hm
        · exact ⟨htotal, huse⟩
      · exact h.sum.trans (by rw [← hsum]; rfl)
      · exact hlen.le.trans h.count
      · intro hnil
        exact h.ends (List.eq_nil_of_length_eq_zero (hlen.symm.trans (congrArg List.length hnil)))
      · intro hne
        have hold := h.iters fun hnil => hne (by simp [setNode, hnil])
        exact ⟨hold.1.trans_eq hlen.symm, hold.2.trans_eq hlen.symm⟩
    · rw [setNode, List.set_eq_of_length_le hv]
      exact h

/-- The public operations, and what a socket puts into iovecs between them. -/
inductive IoOp where
  | op (op : BufferOp)
  | fill (iov : List Iovec) (bytes : List Byte)

def ioStep (b : Buffer) : IoOp → Option Buffer
  | .op op => bufferStep b op
  | .fill iov bytes => some (fillIov b iov bytes)

theorem sized_of_exec {ops : List IoOp} {s : Buffer} (hs : exec ioStep empty ops = some s) : s.Sized := by
  refine invariant_of_exec (fun b op c hb hc => ?_) sized_empty hs
  cases op with
  | op op =>
    obtain ⟨c', hc', hsized⟩ := hb.step_any op
    exact Option.some.inj (hc.symm.trans hc') ▸ hsized
  | fill iov bytes => exact Option.some.inj hc ▸ hb.fillIov iov bytes

/-! ## The sizes are exact -/

/-- The free space and the size are the exact ones, and what fits is written. -/
structure ExactSizes (b : Buffer) : Prop where
  left : b.getLeftSize + b.unread.length = b.buffList.length * bufferInitSize
  use : b.useSize = b.unread.length
  accepts : ∀ data : List Byte, data.length < word32 →
    b.unread.length + data.length ≤ b.buffList.length * bufferInitSize →
    ∃ c, b.writeBuffer data = some (data.length, c)

theorem reserver_of_left {size : ℕ} (h : size ≤ b.getLeftSize) : b.reserver size = some (true, b) := by
  rw [Buffer.reserver, expandFuel, expandLoop, if_neg (Nat.not_lt.mpr h)]

/-- What `GetLeftSize` shows is written without growing the ring. -/
theorem Sized.writeBuffer_of_left (h : b.Sized) {data : List Byte} (hleft : data.length ≤ b.getLeftSize) :
    ∃ c, b.writeBuffer data = some (data.length, c) := by
  have hroom := hleft.trans h.left_le
  have hres := reserver_of_left hleft
  by_cases hne : b.buffList = []
  · have hnil : data.length = 0 := by
      rw [hne] at hroom
      exact Nat.eq_zero_of_le_zero hroom
    have hend : b.wNodeIt = b.buffList.length := by rw [(h.ends hne).1, hne]; rfl
    exact ⟨b, by rw [Buffer.writeBuffer, hres, hnil]; simp [hend]⟩
  · obtain ⟨c, hc, -, -⟩ := h.writeLoop hne data hroom
    exact ⟨{ c with useSize := add32 c.useSize data.length }, by
      simp [Buffer.writeBuffer, hres, (h.iters hne).1.ne, hc]⟩

/-- At 2^20 nodes the free space of an empty ring and the size of a full one wrap to 0, and nothing else is
wrong. -/
theorem Sized.exactSizes_iff (h : b.Sized) :
    ExactSizes b ↔ (b.buffList.length = maxNodes → 0 < b.unread.length ∧ b.unread.length < word32) := by
  have hroom := roomSum_add_sumUse h.nodes
  have hcap := h.capacity_le
  have hsum := h.sum
  rw [← unread_length] at hroom hsum
  have hlimit : maxNodes * bufferInitSize = word32 := rfl
  constructor
  · intro hexact hmax
    have hleft := hexact.left
    have huse := hexact.use
    have hsmall := h.small
    rw [hmax, hlimit, getLeftSize, hmax, hlimit, Nat.mod_self, huse] at hleft
    refine ⟨Nat.pos_of_ne_zero fun hnone => ?_, huse ▸ hsmall⟩
    rw [hnone] at hleft
    cases hleft
  · intro hbetween
    have hbelow : b.unread.length < word32 := by
      by_cases hmax : b.buffList.length = maxNodes
      · exact (hbetween hmax).2
      · have hcount := h.count
        rw [maxNodes] at hmax
        rw [bufferInitSize] at hroom
        rw [word32]
        omega
    have huse : b.useSize = b.unread.length := by rw [hsum, Nat.mod_eq_of_lt hbelow]
    have hleft : b.getLeftSize + b.unread.length = b.buffList.length * bufferInitSize := by
      rw [getLeftSize, huse]
      by_cases hmax : b.buffList.length = maxNodes
      · have hpos := (hbetween hmax).1
        rw [hmax, hlimit, Nat.mod_self, sub32, if_neg (Nat.not_le.mpr hpos)]
        omega
      · have hlt : b.buffList.length * bufferInitSize < word32 := by
          have hcount := h.count
          rw [maxNodes] at hmax
          rw [bufferInitSize, word32]
          omega
        rw [Nat.mod_eq_of_lt hlt, sub32_of_le (by omega)]
        omega
    refine ⟨hleft, huse, fun data _ hfits => h.writeBuffer_of_left ?_⟩
    omega

/-- In every reachable state the sizes are exact unless the ring is at its limit and empty or full. -/
theorem free_space_exact_iff {ops : List IoOp} {s : Buffer} (hs : exec ioStep empty ops = some s) :
    ExactSizes s ↔ (s.buffList.length = maxNodes → 0 < s.unread.length ∧ s.unread.length < word32) :=
  (sized_of_exec hs).exactSizes_iff

/-- A ring that has grown around unread bytes. -/
def limitSample : List IoOp :=
  [.op (.writeBuffer (List.replicate 10 1)), .op (.readBuffer 4), .op (.reserver 9000)]

theorem limitSample_isSome : (exec ioStep empty limitSample).isSome := by decide +kernel

def limitSampleEnd : Buffer := (exec ioStep empty limitSample).get limitSample_isSome

theorem free_space_exact_iff_sample :
    ExactSizes limitSampleEnd ↔ (limitSampleEnd.buffList.length = maxNodes →
      0 < limitSampleEnd.unread.length ∧ limitSampleEnd.unread.length < word32) :=
  @free_space_exact_iff limitSample limitSampleEnd (Option.some_get _).symm

/-! ## The limit is reached -/

theorem length_of_expand_none (h : b.expand = none) : 0xFFFFFFFF ≤ b.buffList.length * bufferInitSize := by
  rw [Buffer.expand] at h
  split_ifs at h with hlimit hnil hfront
  · exact hlimit
  · dsimp only at h
    split at h <;> cases h

/-- The loop gives up where `Expand` does, with less free than asked for. -/
theorem expandLoop_false {fuel size : ℕ} {c : Buffer} (h : expandLoop fuel b size = some (false, c)) :
    c.expand = none ∧ c.getLeftSize < size := by
  induction fuel generalizing b with
  | zero => cases h
  | succ fuel ih =>
    rw [expandLoop] at h
    split_ifs at h with hlt
    · cases he : b.expand with
      | none =>
        simp only [he, Option.some.injEq, Prod.mk.injEq, true_and] at h
        exact h ▸ ⟨he, hlt⟩
      | some d =>
        simp only [he] at h
        exact ih h
    · cases h

theorem expand_useSize {c : Buffer} (h : b.expand = some c) : c.useSize = b.useSize := by
  obtain ⟨-, hpass⟩ := pass_of_expand h
  cases hpass <;> rfl

/-- More than the free space of a ring below the limit can be is never reached: the ring grows to the limit. -/
theorem reserver_empty {size : ℕ} (hsize : word32 - bufferInitSize < size) :
    ∃ s, empty.reserver size = some (false, s) ∧ s.Sized ∧ s.useSize = 0 ∧ s.buffList.length = maxNodes := by
  obtain ⟨ok, s, hs, hsized, huse, -, hok⟩ := sized_empty.reserver (P := fun c => c.useSize = 0)
    (fun c d _ hc hd => (expand_useSize hd).trans hc) rfl size
  have hcap := hsized.capacity_le
  rw [bufferInitSize, word32] at hcap hsize
  cases ok with
  | true =>
    -- the free space of whole nodes leaves out the last node's
    have hleft := hok rfl
    rw [getLeftSize, huse, sub32_of_le (Nat.zero_le _), bufferInitSize, word32] at hleft
    omega
  | false =>
    have hend := length_of_expand_none (expandLoop_false hs).1
    rw [bufferInitSize] at hend
    refine ⟨s, hs, hsized, huse, ?_⟩
    rw [maxNodes]
    omega

/-- `Reserver(0xFFFFFFFF)` on a new buffer: it grows the ring to 2^32 free bytes, of which `GetLeftSize`
shows none. -/
theorem not_free_space_exact :
    ¬ ∀ (ops : List IoOp) (s : Buffer), exec ioStep empty ops = some s → ExactSizes s := by
  intro hall
  have hsize : word32 - bufferInitSize < word32 - 1 := by decide
  obtain ⟨s, hs, hsized, huse, hmax⟩ := reserver_empty hsize
  have hstep : ioStep empty (.op (.reserver (word32 - 1))) = some s := by
    rw [ioStep, bufferStep, hs]
    rfl
  have hexact := hall [.op (.reserver (word32 - 1))] s (exec_cons_eq_some.mpr ⟨s, hstep, rfl⟩)
  obtain ⟨hpos, hbelow⟩ := hsized.exactSizes_iff.mp hexact hmax
  have hsum := hsized.sum
  rw [huse, ← unread_length, Nat.mod_eq_of_lt hbelow] at hsum
  exact hpos.ne hsum

end Chaos.Buffer
