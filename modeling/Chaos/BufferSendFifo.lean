import Chaos.BufferTail
import Chaos.GuardedRuns

/-!
# The send side of the buffer

Runs of `WriteBuffer`, `Reserver` and of `ReadBuffer(iov)` followed by `MoveReadPos`. A write keeps
the stream when it fits one node, that node is not partly read, and no unread byte lies behind it
up to the read node. Otherwise it copies the first bytes again, overwrites unread bytes, or puts the
new bytes in front of older ones.
-/
namespace Chaos.Buffer

open ByteMemory RingOrder Word32 GuardedRuns

structure SendRun where
  buf : Buffer
  written : List Byte
  taken : List Byte

inductive SendOp where
  | write (data : List Byte)
  | reserver (size : ℕ)
  | read (iovcnt size k : ℕ)

def SendRun.start : SendRun := ⟨empty, [], []⟩

/-- `written` collects the data of the writes that returned their full size, `taken` the bytes
shown by the iovecs and then consumed. -/
def sendStep (s : SendRun) : SendOp → Option SendRun
  | .write data =>
    if data.length < word32 then
      match s.buf.writeBuffer data with
      | none => none
      | some (ret, b) =>
        some { s with buf := b, written := if ret = data.length then s.written ++ data else s.written }
    else none
  | .reserver size =>
    if size < word32 then
      match s.buf.reserver size with
      | none => none
      | some (_, b) => some { s with buf := b }
    else none
  | .read iovcnt size k =>
    let iov := s.buf.readBufferIov iovcnt size
    if size < word32 ∧ k ≤ iovTotal iov then
      match s.buf.moveReadPos k with
      | none => none
      | some b => some { s with buf := b, taken := s.taken ++ (s.buf.iovBytes iov).take k }
    else none

/-- A write that copies anything finds, once the ring has room for it, a free tail with room for all
of it in one node, and does not fill the buffer up to the 2^32 bytes its size cannot show. -/
def sendOk (s : SendRun) : SendOp → Prop
  | .write data => data = [] ∨ match s.buf.reserver data.length with
    | some (true, b) =>
      b.TailFree ∧ data.length ≤ b.firstRoom ∧ b.useSize + data.length < word32
    | _ => True
  | _ => True

instance (s : SendRun) (op : SendOp) : Decidable (sendOk s op) := by
  unfold sendOk
  split <;> try infer_instance
  split <;> infer_instance

/-! ## The passes of `WriteBuffer` -/

theorem writeLoop_done (data : List Byte) (fuel : ℕ) (b : Buffer) :
    writeLoop data fuel b 0 = some b := by
  cases fuel <;> simp [writeLoop]

section Passes
variable {b : Buffer} {data : List Byte} {left : ℕ}

/-- A node with room for all that is left takes it. -/
theorem writeLoop_fill (fuel : ℕ) (hn : (b.node b.wNodeIt).totalSize ≠ (b.node b.wNodeIt).useSize)
    (hpos : 0 < data.length) (hroom : data.length ≤ nodeRoom (b.node b.wNodeIt)) :
    writeLoop data (fuel + 1) b data.length =
      some (b.setNode b.wNodeIt (filled (b.node b.wNodeIt) data)) := by
  have hcp : ¬ nodeRoom (b.node b.wNodeIt) < data.length := by omega
  rw [nodeRoom] at hcp
  simp [writeLoop, hpos, hn, hcp, writeLoop_done, filled]

/-- A pass on a full node acts on the node after it. -/
theorem writeLoop_next (fuel : ℕ) (hm : (b.node b.wNodeIt).totalSize = (b.node b.wNodeIt).useSize)
    (hn : (b.getNextWNodeIt.node b.getNextWNodeIt.wNodeIt).totalSize ≠
      (b.getNextWNodeIt.node b.getNextWNodeIt.wNodeIt).useSize) (hpos : 0 < left) :
    writeLoop data (fuel + 1) b left = writeLoop data (fuel + 1) b.getNextWNodeIt left := by
  simp only [writeLoop, if_pos hpos, hm, hn, if_true, if_false]

/-- When that one is full as well, the pass only moves the iterator. -/
theorem writeLoop_skip (fuel : ℕ) (hw : b.getNextWNodeIt.wNodeIt < b.buffList.length)
    (hm : (b.node b.wNodeIt).totalSize = (b.node b.wNodeIt).useSize)
    (hn : (b.getNextWNodeIt.node b.getNextWNodeIt.wNodeIt).totalSize =
      (b.getNextWNodeIt.node b.getNextWNodeIt.wNodeIt).useSize) (hpos : 0 < left) :
    writeLoop data (fuel + 1) b left = writeLoop data fuel b.getNextWNodeIt left := by
  have hself := setNode_self (b := b.getNextWNodeIt) hw
  have hroom : (b.getNextWNodeIt.node b.getNextWNodeIt.wNodeIt).totalSize -
      (b.getNextWNodeIt.node b.getNextWNodeIt.wNodeIt).useSize = 0 := by omega
  simp only [writeLoop, hm, if_true, hroom, gt_iff_lt, hpos, Nat.sub_zero, List.take_zero, store_nil,
    Nat.add_zero]
  exact congrArg (fun c => writeLoop data fuel c left) hself

end Passes

/-- The induction is on the full nodes in front of the one with room for everything. -/
theorem writeLoop_fits {b : Buffer} {data : List Byte} {pre full post : List BufferNode}
    {n : BufferNode} (hw : b.wNodeIt < b.buffList.length) (hr : b.rNodeIt < b.buffList.length)
    (hring : b.ring = pre ++ (full ++ n :: post))
    (hpre : pre.length = offset b.buffList.length b.rNodeIt b.wNodeIt)
    (hfull : ∀ m ∈ full, m.totalSize = m.useSize) (hn : n.totalSize ≠ n.useSize)
    (hpos : 0 < data.length) (hroom : data.length ≤ nodeRoom n) {fuel : ℕ}
    (hfuel : full.length ≤ fuel) :
    ∃ b', writeLoop data (fuel + 1) b data.length = some b' ∧
      b'.ring = pre ++ (full ++ filled n data :: post) ∧ b'.buffList.length = b.buffList.length ∧
      b'.rNodeIt = b.rNodeIt ∧ b'.wNodeIt < b.buffList.length ∧ b'.useSize = b.useSize := by
  induction full generalizing b pre fuel with
  | nil =>
    have hx : b.node b.wNodeIt = n := node_of_ring hr hw hring hpre
    rw [writeLoop_fill fuel (by rwa [hx]) hpos (by rwa [hx]), hx]
    exact ⟨_, rfl, ring_setNode hr hw hring hpre _, by simp [setNode], rfl, hw, rfl⟩
  | cons m full ih =>
    have hx : b.node b.wNodeIt = m := node_of_ring hr hw (by simpa using hring) hpre
    have hm : m.totalSize = m.useSize := hfull m (by simp)
    have hlen : pre.length + 1 < b.buffList.length := by
      have hl := congrArg List.length hring
      simp [ring] at hl
      omega
    have hw' : b.getNextWNodeIt.wNodeIt < b.buffList.length := next_lt hw
    have hpre' : (pre ++ [m]).length =
        offset b.buffList.length b.rNodeIt b.getNextWNodeIt.wNodeIt := by
      simp only [getNextWNodeIt]
      rw [offset_next hr (by omega), ← hpre]
      simp
    have hring' : b.getNextWNodeIt.ring = (pre ++ [m]) ++ (full ++ n :: post) := by
      simpa [getNextWNodeIt, ring] using hring
    have ih' := fun f hf => @ih b.getNextWNodeIt (pre ++ [m]) hw' hr hring' hpre'
      (fun k hk => hfull k (List.mem_cons_of_mem _ hk)) f hf
    have hstep : ∃ f, full.length ≤ f ∧ writeLoop data (fuel + 1) b data.length =
        writeLoop data (f + 1) b.getNextWNodeIt data.length := by
      cases full with
      | nil =>
        have hy : b.getNextWNodeIt.node b.getNextWNodeIt.wNodeIt = n :=
          node_of_ring (b := b.getNextWNodeIt) hr hw' hring' hpre'
        exact ⟨fuel, by simp, writeLoop_next fuel (by rwa [hx]) (by rwa [hy]) hpos⟩
      | cons m' full =>
        have hy : b.getNextWNodeIt.node b.getNextWNodeIt.wNodeIt = m' :=
          node_of_ring (b := b.getNextWNodeIt) hr hw' (by simpa using hring') hpre'
        obtain ⟨f, rfl⟩ : ∃ f, fuel = f + 1 := ⟨fuel - 1, by simp at hfuel; omega⟩
        refine ⟨f, by simpa using hfuel, writeLoop_skip (f + 1) hw' (by rwa [hx]) ?_ hpos⟩
        rw [hy]
        exact hfull m' (by simp)
    obtain ⟨f, hf, heq⟩ := hstep
    obtain ⟨b', hb', hrb, hlb, hrr, hww, huu⟩ := ih' f hf
    exact ⟨b', heq.trans hb', by simpa using hrb, hlb, hrr, hww, huu⟩

/-! ## A write into a free tail -/

/-- Bytes written into the free tail come last among the unread ones. -/
theorem Good.writeLoop_tail {b : Buffer} (h : b.Good) (ht : b.TailFree) {data : List Byte}
    (hpos : 0 < data.length) (hroom : data.length ≤ b.firstRoom)
    (hsmall : b.useSize + data.length < word32) :
    ∃ b', writeLoop data (b.buffList.length + 1) b data.length = some b' ∧
      Good { b' with useSize := add32 b'.useSize data.length } ∧ b'.unread = b.unread ++ data := by
  obtain ⟨pre, full, n, ns, hring, hopen, hpre, hne, hfull, hn, hcursor, hrest⟩ := h.tail ht
  obtain ⟨hw, hr⟩ := h.iters hne
  have hroom : data.length ≤ nodeRoom n := by simpa [firstRoom, hopen] using hroom
  have hfuel : full.length ≤ b.buffList.length := by
    have hl := congrArg List.length hring
    simp [ring] at hl
    omega
  obtain ⟨b', hb', hring', hlen', hr', hw', huse'⟩ :=
    writeLoop_fits hw hr hring hpre hfull hn hpos hroom hfuel
  have hadd : add32 b'.useSize data.length = b.useSize + data.length := by
    rw [huse', add32_of_lt hsmall]
  have hold (m : BufferNode) (hm : m ∈ full ++ n :: ns) : GoodNode m := by
    apply h.nodes m
    apply List.mem_rotate.mp
    rw [show b.buffList.rotate b.rNodeIt = pre ++ (full ++ n :: ns) from hring]
    exact List.mem_append_right _ hm
  refine ⟨b', hb', ?_, ?_⟩
  · refine h.replaceTail hring hring' ?_ ?_ ?_ hne hlen' hw' hr'
    · intro m hm
      rcases List.mem_append.mp hm with hm | hm
      · exact hold m (by simp [hm])
      · rcases List.mem_cons.mp hm with rfl | hm
        · exact (hold n (by simp)).filled hcursor hroom
        · exact hold m (by simp [hm])
    · simp only [hadd, sumUse_append, sumUse_cons, filled]
      omega
    · exact hadd.trans_lt hsmall
  · have hlast : ns.flatMap unreadNode = [] := flatMap_unread_nil hrest
    simp only [unread, hring', hring, List.flatMap_append, List.flatMap_cons,
      unreadNode_filled hcursor, hlast, List.append_nil, List.append_assoc]

/-- A write appends its data when it returns their size, and nothing otherwise. -/
theorem Good.writeBuffer {b : Buffer} (h : b.Good) {data : List Byte}
    (hok : data = [] ∨ match b.reserver data.length with
      | some (true, b) => b.TailFree ∧ data.length ≤ b.firstRoom ∧ b.useSize + data.length < word32
      | _ => True) :
    ∃ ret b', b.writeBuffer data = some (ret, b') ∧ b'.Good ∧
      b'.unread = b.unread ++ if ret = data.length then data else [] := by
  obtain ⟨ok, b₁, hres, h₁, hun, _, _⟩ := h.reserver data.length
  rw [Buffer.writeBuffer]
  rw [hres] at hok ⊢
  rw [← hun]
  rcases List.eq_nil_or_concat data with rfl | ⟨_, _, hcat⟩
  · cases ok with
    | false => exact ⟨0, b₁, rfl, h₁, by simp⟩
    | true =>
      by_cases hend : b₁.wNodeIt = b₁.buffList.length
      · exact ⟨0, b₁, by simp [hend], h₁, by simp⟩
      · have hzero : add32 b₁.useSize 0 = b₁.useSize := add32_of_lt (by simpa using h₁.small)
        exact ⟨0, b₁, by simp [hend, writeLoop_done, hzero], h₁, by simp⟩
  · have hpos : 0 < data.length := by simp [hcat]
    have hne : data ≠ [] := List.length_pos_iff.mp hpos
    cases ok with
    | false =>
      refine ⟨0, b₁, rfl, h₁, ?_⟩
      rw [if_neg (by omega), List.append_nil]
    | true =>
      obtain ⟨ht, hroom, hsmall⟩ := hok.resolve_left hne
      obtain ⟨b₂, hb₂, hg, hu⟩ := h₁.writeLoop_tail ht hpos hroom hsmall
      have hlist : b₁.buffList ≠ [] := by
        intro hnil
        rw [TailFree, openTail, fromWriter, ring, hnil] at ht
        simp at ht
      have hw : b₁.wNodeIt ≠ b₁.buffList.length := (h₁.iters hlist).1.ne
      refine ⟨data.length, { b₂ with useSize := add32 b₂.useSize data.length }, ?_, hg, ?_⟩
      · simp [hw, hb₂]
      · rw [if_pos rfl, ← hu]
        rfl

/-! ## Runs -/

structure SendInv (s : SendRun) : Prop where
  good : s.buf.Good
  stream : s.taken ++ s.buf.unread = s.written

theorem sendInv_start : SendInv .start := by
  refine ⟨good_empty, ?_⟩
  have hu : empty.unread = [] := unread_nil rfl
  simp [SendRun.start, hu]

/-- The step lemma: what a guarded operation writes comes last, what it takes comes first. -/
theorem sendInv_step {s t : SendRun} {op : SendOp} (h : SendInv s) (hok : sendOk s op)
    (ht : sendStep s op = some t) : SendInv t := by
  obtain ⟨hg, hstream⟩ := h
  cases op with
  | write data =>
    obtain ⟨ret, b, hb, hg', hu⟩ := hg.writeBuffer hok
    simp only [sendStep, hb, Option.ite_none_right_eq_some, Option.some.injEq] at ht
    obtain ⟨_, rfl⟩ := ht
    refine ⟨hg', ?_⟩
    simp only [hu, ← List.append_assoc, hstream]
    split_ifs <;> simp
  | reserver size =>
    obtain ⟨ok, b, hb, hg', hu, _, _⟩ := hg.reserver size
    simp only [sendStep, hb, Option.ite_none_right_eq_some, Option.some.injEq] at ht
    obtain ⟨_, rfl⟩ := ht
    exact ⟨hg', by simpa only [hu] using hstream⟩
  | read iovcnt size k =>
    obtain ⟨hbytes, htotal⟩ := readBufferIov_bytes (fun hne => (hg.iters hne).2) hg.sum.le iovcnt size
    obtain ⟨b, hb, hg', hu⟩ := hg.moveReadPos k
    simp only [sendStep, hb, Option.ite_none_right_eq_some, Option.some.injEq] at ht
    obtain ⟨⟨_, hk⟩, rfl⟩ := ht
    refine ⟨hg', ?_⟩
    have hmin : min k s.buf.useSize = k := Nat.min_eq_left (hk.trans htotal)
    have htake : (s.buf.iovBytes (s.buf.readBufferIov iovcnt size)).take k = s.buf.unread.take k := by
      rw [hbytes, List.take_take, Nat.min_eq_left hk]
    simp only [hu, hmin, htake, List.append_assoc, List.take_append_drop, hstream]

/-- Every operation that is called as the code calls it returns. -/
theorem sendStep_isSome {s : SendRun} {op : SendOp} (h : SendInv s) (hok : sendOk s op)
    (hcall : match op with
      | .write data => data.length < word32
      | .reserver size => size < word32
      | .read iovcnt size k => size < word32 ∧ k ≤ iovTotal (s.buf.readBufferIov iovcnt size)) :
    (sendStep s op).isSome := by
  cases op with
  | write data =>
    obtain ⟨ret, b, hb, _⟩ := h.good.writeBuffer hok
    simp [sendStep, hb, show data.length < word32 from hcall]
  | reserver size =>
    obtain ⟨ok, b, hb, _⟩ := h.good.reserver size
    simp [sendStep, hb, show size < word32 from hcall]
  | read iovcnt size k =>
    obtain ⟨b, hb, _⟩ := h.good.moveReadPos k
    obtain ⟨hsize, hk⟩ := hcall
    simp [sendStep, hb, hsize, hk]

/-- In a run whose writes all meet `sendOk`, the bytes taken and the bytes still readable are the
bytes written, and one `ReadBuffer` of everything returns what is still readable. -/
theorem send_fifo {ops : List SendOp} {s : SendRun} (hg : Guarded sendStep sendOk .start ops)
    (hs : exec sendStep .start ops = some s) :
    s.taken ++ s.buf.unread = s.written ∧
      ∃ b, s.buf.readBuffer s.buf.useSize = some (s.buf.unread, b) := by
  have hinv : SendInv s := invariant_of_guarded (fun _ _ _ => sendInv_step) sendInv_start hg hs
  obtain ⟨b, hb, _, _⟩ := hinv.good.readBuffer s.buf.useSize
  refine ⟨hinv.stream, b, ?_⟩
  rw [hb, Nat.min_self, hinv.good.sum, ← unread_length, List.take_length]

/-- A run in which the ring grows in front of the read node and behind the write node, with writes
after partial reads and a read that crosses two nodes. -/
def sendSample : List SendOp :=
  [.write (List.replicate 4090 1), .write (List.replicate 4000 2), .read 1 10 10, .reserver 4000,
    .write [4, 5], .read 4 100 2, .write (List.replicate 94 3), .write [6], .read 2 8192 4500]

def sendSampleEnd : SendRun := (exec sendStep .start sendSample).get (by decide +kernel)

theorem send_fifo_sample :
    sendSampleEnd.taken ++ sendSampleEnd.buf.unread = sendSampleEnd.written ∧
      ∃ b, sendSampleEnd.buf.readBuffer sendSampleEnd.buf.useSize =
        some (sendSampleEnd.buf.unread, b) :=
  send_fifo (show Guarded sendStep sendOk .start sendSample by decide +kernel)
    (Option.some_get _).symm

/-- A write to a partly read node goes over its unread bytes. -/
theorem send_not_fifo :
    ¬ ∀ ops s, exec sendStep .start ops = some s → s.taken ++ s.buf.unread = s.written := by
  intro h
  have hrun := h [.write [97, 98, 99, 100], .read 1 4 2, .write [120]] _
    (Option.some_get (by decide +kernel)).symm
  revert hrun
  decide +kernel

end Chaos.Buffer
