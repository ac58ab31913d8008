import Mathlib.Algebra.BigOperators.Group.List.Basic
import Mathlib.Algebra.GroupWithZero.Nat

/-!
# Streams of frames

A decoder that is asked at a position answers with a frame and with how far to go on. `decodeAll` asks
it again and again, and succeeds when it comes to the end of the stream exactly.
-/
namespace Chaos.FrameStreams

variable {β : Type*} (dec : ℕ → β × ℕ) (total : ℕ)

def decodeAll : ℕ → ℕ → Option (List β)
  | 0, pos => if pos = total then some [] else none
  | fuel + 1, pos =>
    if pos = total then some []
    else if total < pos then none
    else (decodeAll fuel (pos + (dec pos).2)).map ((dec pos).1 :: ·)

variable {dec total}

theorem decodeAll_total (fuel : ℕ) : decodeAll dec total fuel total = some [] := by
  cases fuel <;> simp [decodeAll]

/-- Frames that lie one behind the other up to the end are found. -/
theorem decodeAll_frames {frames : List (β × ℕ)} {pos fuel : ℕ} (hsize : ∀ f ∈ frames, 0 < f.2)
    (hdec : ∀ pre f post, frames = pre ++ f :: post → dec (pos + (pre.map Prod.snd).sum) = f)
    (htotal : total = pos + (frames.map Prod.snd).sum) (hfuel : frames.length ≤ fuel) :
    decodeAll dec total fuel pos = some (frames.map Prod.fst) := by
  induction frames generalizing pos fuel with
  | nil =>
    have hend : pos = total := by simpa using htotal.symm
    rw [hend, decodeAll_total]
    rfl
  | cons f frames ih =>
    obtain ⟨hf, hrest⟩ := List.forall_mem_cons.mp hsize
    simp only [List.map_cons, List.sum_cons] at htotal
    cases fuel with
    | zero => simp at hfuel
    | succ fuel =>
      have hhead : dec pos = f := by simpa using hdec [] f frames rfl
      have htail : decodeAll dec total fuel (pos + f.2) = some (frames.map Prod.fst) := by
        apply ih hrest
        · intro pre g post hsplit
          have hnext := hdec (f :: pre) g post (by rw [hsplit, List.cons_append])
          simpa [Nat.add_assoc] using hnext
        · omega
        · simpa using hfuel
      rw [decodeAll, if_neg (by omega), if_neg (by omega), hhead, htail]
      rfl

/-- Every frame that is found was an answer of the decoder. -/
theorem mem_decodeAll {fuel pos : ℕ} {found : List β} (h : decodeAll dec total fuel pos = some found)
    {b : β} (hb : b ∈ found) : ∃ p, b = (dec p).1 := by
  induction fuel generalizing pos found with
  | zero =>
    simp only [decodeAll, Option.ite_none_right_eq_some, Option.some.injEq] at h
    rw [← h.2] at hb
    cases hb
  | succ fuel ih =>
    rw [decodeAll] at h
    split_ifs at h
    · rw [← Option.some.inj h] at hb
      cases hb
    · obtain ⟨rest, hrest, rfl⟩ := Option.map_eq_some_iff.mp h
      rcases List.mem_cons.mp hb with hhead | htail
      · exact ⟨pos, hhead⟩
      · exact ih hrest htail

end Chaos.FrameStreams
