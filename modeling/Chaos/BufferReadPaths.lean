import Chaos.BufferLimits

/-!
# The two ways to read

A reader copies with `ReadBuffer(char*, uint32)`, or takes iovecs and moves the cursor past what it used. The
iovecs stop at the end of what they were asked for, wherever that is in the ring, and both loops leave the
ring behind in the same way, so the two ways agree on every buffer that operations can lead to.
-/
namespace Chaos.Buffer

open GuardedRuns

variable {b : Buffer}

theorem Sized.useSize_le (h : b.Sized) : b.useSize ≤ sumUse b.buffList := h.sum ▸ Nat.mod_le _ _

/-- Copying as many bytes as iovecs show gives the bytes that they show, and moving the cursor past them the
buffer that the copy leaves. -/
theorem Sized.readBufferIov (h : b.Sized) (iovcnt size : ℕ) :
    ∃ c, b.readBuffer (iovTotal (b.readBufferIov iovcnt size)) =
        some (b.iovBytes (b.readBufferIov iovcnt size), c) ∧
      b.moveReadPos (iovTotal (b.readBufferIov iovcnt size)) = some c := by
  obtain ⟨hbytes, htotal⟩ := readBufferIov_bytes (fun hne => (h.iters hne).2) h.useSize_le iovcnt size
  obtain ⟨c, hread, hmove, -⟩ := h.readBuffer (P := fun _ => True) (fun _ _ _ _ _ _ _ _ _ => trivial) trivial
    (iovTotal (b.readBufferIov iovcnt size))
  rw [Nat.min_eq_left htotal, ← hbytes] at hread
  exact ⟨c, hread, hmove⟩

/-- The two read paths agree on every reachable buffer. -/
theorem read_paths_agree {ops : List IoOp} {s : Buffer} (hs : exec ioStep empty ops = some s)
    (iovcnt size : ℕ) :
    ∃ c, s.readBuffer (iovTotal (s.readBufferIov iovcnt size)) =
        some (s.iovBytes (s.readBufferIov iovcnt size), c) ∧
      s.moveReadPos (iovTotal (s.readBufferIov iovcnt size)) = some c :=
  (sized_of_exec hs).readBufferIov iovcnt size

/-- Partly read, drained and full nodes, read across the end of the list. -/
def readSample : List IoOp :=
  [.op (.writeBuffer (List.replicate 10 1)), .op (.readBuffer 4), .op (.writeBuffer (List.replicate 4090 2)),
    .op (.writeBuffer (List.replicate 3 3)), .op (.getWriteBuffer 2 50), .fill [⟨0, 7, 50⟩] [7, 8, 9],
    .op (.moveWritePos 20), .op (.moveReadPos 5)]

theorem readSample_isSome : (exec ioStep empty readSample).isSome := by decide +kernel

def readSampleEnd : Buffer := (exec ioStep empty readSample).get readSample_isSome

theorem read_paths_agree_sample :
    ∃ c, readSampleEnd.readBuffer (iovTotal (readSampleEnd.readBufferIov 3 4099)) =
        some (readSampleEnd.iovBytes (readSampleEnd.readBufferIov 3 4099), c) ∧
      readSampleEnd.moveReadPos (iovTotal (readSampleEnd.readBufferIov 3 4099)) = some c :=
  @read_paths_agree readSample readSampleEnd (Option.some_get _).symm 3 4099

end Chaos.Buffer
