import Chaos.ByteMemory
import Chaos.RingOrder
import Chaos.Word32

/-!
# The ring buffer of a connection

`net/Buffer.h` and `net/Buffer.cpp`. The node list is a Lean list and an iterator is an index into
it, the length of the list being `end()`; a pointer into a node is an offset from its `buffer`.
The while loops take fuel and answer `none` when it is used up. `m_useSize` and the free space
wrap at 32 bits; inside a node `useSize` never passes `totalSize`, so plain differences do there.
-/
namespace Chaos

open ByteMemory RingOrder Word32

abbrev Byte := UInt8

def bufferInitSize : ℕ := 1024 * 4

structure BufferNode where
  buffer : ℕ → Byte
  readCursor : ℕ
  totalSize : ℕ
  useSize : ℕ

/-- An `iovec` into the node at index `node`. -/
structure Iovec where
  node : ℕ
  base : ℕ
  len : ℕ
  deriving DecidableEq, Repr

structure Buffer where
  buffList : List BufferNode
  wNodeIt : ℕ
  rNodeIt : ℕ
  useSize : ℕ

namespace Buffer

def newNode : BufferNode := ⟨fun _ => 0, 0, bufferInitSize, 0⟩

instance : Inhabited BufferNode := ⟨newNode⟩

/-- The constructor. -/
def empty : Buffer := ⟨[], 0, 0, 0⟩

def node (b : Buffer) (i : ℕ) : BufferNode := b.buffList.getD i default

def setNode (b : Buffer) (i : ℕ) (n : BufferNode) : Buffer :=
  { b with buffList := b.buffList.set i n }

def getLeftSize (b : Buffer) : ℕ :=
  sub32 (b.buffList.length * bufferInitSize % word32) b.useSize

def getNextWNodeIt (b : Buffer) : Buffer :=
  { b with wNodeIt := next b.buffList.length b.wNodeIt }

def getNextRNodeIt (b : Buffer) : Buffer :=
  { b with rNodeIt := if 0 < b.useSize then next b.buffList.length b.rNodeIt else b.wNodeIt }

/-- `Expand`, `none` when it answers -1. -/
def expand (b : Buffer) : Option Buffer :=
  if b.buffList.length * bufferInitSize ≥ 0xFFFFFFFF then none
  else if b.buffList = [] then some { b with buffList := [newNode], wNodeIt := 0, rNodeIt := 0 }
  else if b.wNodeIt = b.rNodeIt ∧ 0 < (b.node b.wNodeIt).useSize then
    -- the new node goes in front of the node that is both read and written
    let writeNode := b.node b.wNodeIt
    let realUseSize := sub32 writeNode.totalSize writeNode.readCursor
    if realUseSize < writeNode.useSize then
      let moveSize := writeNode.useSize - realUseSize
      let moved := { newNode with
        buffer := store newNode.buffer 0 (load writeNode.buffer 0 moveSize), useSize := moveSize }
      some { b with
        buffList := insertAt (b.buffList.set b.wNodeIt { writeNode with useSize := realUseSize })
          b.wNodeIt moved
        rNodeIt := b.rNodeIt + 1 }
    else
      some { b with
        buffList := insertAt b.buffList b.wNodeIt newNode, rNodeIt := b.rNodeIt + 1 }
  else
    some { b with
      buffList := insertAt b.buffList (b.wNodeIt + 1) newNode
      rNodeIt := if b.wNodeIt + 1 ≤ b.rNodeIt then b.rNodeIt + 1 else b.rNodeIt }

/-- `while (GetLeftSize() < size) if (Expand() != 0) ...`, the head of `Reserver`, `WriteBuffer`
and `GetWriteBuffer`; the Boolean is `false` when an `Expand` failed. -/
def expandLoop : ℕ → Buffer → ℕ → Option (Bool × Buffer)
  | 0, _, _ => none
  | fuel + 1, b, size =>
    if b.getLeftSize < size then
      match b.expand with
      | none => some (false, b)
      | some b' => expandLoop fuel b' size
    else some (true, b)

/-- `Expand` adds a node each time and refuses at 1048576 of them. -/
def expandFuel (b : Buffer) : ℕ := 1048577 - b.buffList.length + 1

def reserver (b : Buffer) (size : ℕ) : Option (Bool × Buffer) := expandLoop b.expandFuel b size

/-- The loop of `ReadBuffer(char*, uint32)`: the bytes copied so far and what is left to copy. -/
def readLoop : ℕ → Buffer → List Byte → ℕ → Option (List Byte × Buffer)
  | 0, b, out, leftSize => if 0 < leftSize then none else some (out, b)
  | fuel + 1, b, out, leftSize =>
    if 0 < leftSize then
      let pCurNode := b.node b.rNodeIt
      let cpSize := if leftSize > pCurNode.useSize then pCurNode.useSize else leftSize
      let out := out ++ load pCurNode.buffer pCurNode.readCursor cpSize
      let useSize := sub32 b.useSize cpSize
      if pCurNode.useSize - cpSize = 0 then
        let n := { pCurNode with useSize := pCurNode.useSize - cpSize, readCursor := 0 }
        readLoop fuel ({ b.setNode b.rNodeIt n with useSize := useSize }.getNextRNodeIt) out
          (leftSize - cpSize)
      else
        let n := { pCurNode with
          useSize := pCurNode.useSize - cpSize, readCursor := pCurNode.readCursor + cpSize }
        readLoop fuel { b.setNode b.rNodeIt n with useSize := useSize } out (leftSize - cpSize)
    else some (out, b)

/-- `ReadBuffer(char*, uint32)`: the bytes copied, their number being the result. -/
def readBuffer (b : Buffer) (size : ℕ) : Option (List Byte × Buffer) :=
  let realSize := if size > b.useSize then b.useSize else size
  if b.rNodeIt = b.buffList.length then some ([], b)
  else readLoop (b.buffList.length + 1) b [] realSize

/-- `ReadBuffer(uint32*)`: the address of the current node's data and its size. -/
def readNode (b : Buffer) : Option Iovec :=
  if b.rNodeIt = b.buffList.length then none
  else some ⟨b.rNodeIt, (b.node b.rNodeIt).readCursor, (b.node b.rNodeIt).useSize⟩

def readIovLoop (b : Buffer) : ℕ → ℕ → ℕ → List Iovec
  | 0, _, _ => []
  | iovcnt + 1, it, size =>
    if size = 0 then []
    else
      let pCurNode := b.node it
      let len := if pCurNode.useSize > size then size else pCurNode.useSize
      ⟨it, pCurNode.readCursor, len⟩ ::
        readIovLoop b iovcnt (next b.buffList.length it) (size - len)

/-- `ReadBuffer(IOVEC_TYPE*, int, uint32)`. -/
def readBufferIov (b : Buffer) (iovcnt size : ℕ) : List Iovec :=
  readIovLoop b iovcnt b.rNodeIt (if size > b.useSize then b.useSize else size)

def moveReadLoop : ℕ → Buffer → ℕ → Option Buffer
  | 0, b, size => if 0 < size then none else some b
  | fuel + 1, b, size =>
    if 0 < size then
      let pCurNode := b.node b.rNodeIt
      let validSize := if pCurNode.useSize > size then size else pCurNode.useSize
      let useSize := sub32 b.useSize validSize
      let n := { pCurNode with
        useSize := pCurNode.useSize - validSize, readCursor := pCurNode.readCursor + validSize }
      if n.useSize = 0 then
        moveReadLoop fuel
          ({ b.setNode b.rNodeIt { n with readCursor := 0 } with useSize := useSize }.getNextRNodeIt)
          (size - validSize)
      else
        moveReadLoop fuel { b.setNode b.rNodeIt n with useSize := useSize } (size - validSize)
    else some b

def moveReadPos (b : Buffer) (size : ℕ) : Option Buffer :=
  if b.rNodeIt = b.buffList.length then some b
  else moveReadLoop (b.buffList.length + 1) b (if size > b.useSize then b.useSize else size)

/-- The loop of `WriteBuffer`. Every pass copies from the start of `buffer`, not from where the
pass before it stopped. -/
def writeLoop (buffer : List Byte) : ℕ → Buffer → ℕ → Option Buffer
  | 0, b, leftLen => if 0 < leftLen then none else some b
  | fuel + 1, b, leftLen =>
    if 0 < leftLen then
      let full := (b.node b.wNodeIt).totalSize = (b.node b.wNodeIt).useSize
      let b := if full then b.getNextWNodeIt else b
      let pCurNode := b.node b.wNodeIt
      let room := pCurNode.totalSize - pCurNode.useSize
      let cpSize := if leftLen > room then room else leftLen
      let n := { pCurNode with
        buffer := store pCurNode.buffer pCurNode.useSize (buffer.take cpSize)
        useSize := pCurNode.useSize + cpSize }
      writeLoop buffer fuel (b.setNode b.wNodeIt n) (leftLen - cpSize)
    else some b

/-- `WriteBuffer`: the result and the buffer after it. -/
def writeBuffer (b : Buffer) (buffer : List Byte) : Option (ℕ × Buffer) :=
  match b.reserver buffer.length with
  | none => none
  | some (false, b) => some (0, b)
  | some (true, b) =>
    if b.wNodeIt = b.buffList.length then some (0, b)
    else match writeLoop buffer (b.buffList.length + 1) b buffer.length with
      | none => none
      | some b' => some (buffer.length, { b' with useSize := add32 b'.useSize buffer.length })

def getWriteIovLoop (b : Buffer) : ℕ → ℕ → ℕ → List Iovec
  | 0, _, _ => []
  | iovcnt + 1, it, size =>
    if size = 0 then []
    else
      let n := b.node it
      let len := if n.totalSize - n.useSize > size then size else n.totalSize - n.useSize
      ⟨it, n.useSize, len⟩ :: getWriteIovLoop b iovcnt (next b.buffList.length it) (size - len)

/-- The size `GetWriteBuffer` asks for. -/
def writeSize (iovcnt size : ℕ) : ℕ :=
  if iovcnt * bufferInitSize % word32 > size then size else iovcnt * bufferInitSize % word32

/-- `GetWriteBuffer`: the filled iovecs, none of them when an `Expand` failed. -/
def getWriteBuffer (b : Buffer) (iovcnt size : ℕ) : Option (List Iovec × Buffer) :=
  match b.reserver (writeSize iovcnt size) with
  | none => none
  | some (false, b) => some ([], b)
  | some (true, b) => some (getWriteIovLoop b iovcnt b.wNodeIt (writeSize iovcnt size), b)

/-- The comparison in `MoveWritePos` is made in 32 bits; where its sum wraps the whole size goes to one
node, whose counter wraps with it. -/
def moveWriteLoop : ℕ → Buffer → ℕ → Option Buffer
  | 0, b, size => if 0 < size then none else some b
  | fuel + 1, b, size =>
    if 0 < size then
      let n := b.node b.wNodeIt
      let addSize := if add32 n.useSize size > n.totalSize then n.totalSize - n.useSize else size
      let b := { b with useSize := add32 b.useSize addSize }
      moveWriteLoop fuel
        (b.setNode b.wNodeIt { n with useSize := add32 n.useSize addSize }).getNextWNodeIt
        (size - addSize)
    else some b

def moveWritePos (b : Buffer) (size : ℕ) : Option Buffer :=
  moveWriteLoop (b.buffList.length + 1) b (if b.getLeftSize > size then size else b.getLeftSize)

/-- What a reader of the iovecs sees. -/
def iovBytes (b : Buffer) (iov : List Iovec) : List Byte :=
  iov.flatMap fun v => load (b.node v.node).buffer v.base v.len

def iovTotal (iov : List Iovec) : ℕ := (iov.map Iovec.len).sum

/-- `readv` into the iovecs: each is filled before the next is begun. -/
def fillIov (b : Buffer) : List Iovec → List Byte → Buffer
  | [], _ => b
  | v :: iov, bytes =>
    let n := b.node v.node
    fillIov (b.setNode v.node { n with buffer := store n.buffer v.base (bytes.take v.len) }) iov
      (bytes.drop v.len)

/-- The unread bytes of a node. -/
def unreadNode (n : BufferNode) : List Byte := load n.buffer n.readCursor n.useSize

/-- The nodes in the order in which the reader comes to them. -/
def ring (b : Buffer) : List BufferNode := b.buffList.rotate b.rNodeIt

/-- The bytes still readable. -/
def unread (b : Buffer) : List Byte := b.ring.flatMap unreadNode

end Buffer

end Chaos
