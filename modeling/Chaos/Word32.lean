import Mathlib.Tactic.NormNum

/-!
# Unsigned 32-bit arithmetic on natural numbers

A `uint32` is a natural number below `word32`; sums and differences of such numbers wrap.
-/
namespace Chaos.Word32

def word32 : ℕ := 4294967296

def add32 (a b : ℕ) : ℕ := (a + b) % word32

def sub32 (a b : ℕ) : ℕ := if b ≤ a then a - b else a + word32 - b

/-- The low 32 bits, read as an `int`. -/
def int32 (n : ℕ) : ℤ := if n % word32 < 2147483648 then (n % word32 : ℕ) else (n % word32 : ℕ) - 4294967296

theorem int32_of_le {n : ℕ} (h : n ≤ 2147483647) : int32 n = n := by
  rw [int32, word32]
  split <;> omega

theorem int32_lt_of_lt {n : ℕ} (h : 2147483647 < n) : int32 n < n := by
  rw [int32, word32]
  split <;> omega

theorem add32_of_lt {a b : ℕ} (h : a + b < word32) : add32 a b = a + b := Nat.mod_eq_of_lt h

theorem add32_lt (a b : ℕ) : add32 a b < word32 := Nat.mod_lt _ (by decide)

theorem add32_zero {a : ℕ} (h : a < word32) : add32 a 0 = a := add32_of_lt h

theorem add32_add (a b c : ℕ) : add32 (add32 a b) c = add32 a (b + c) := by
  rw [add32, add32, add32, Nat.mod_add_mod, Nat.add_assoc]

theorem sub32_of_le {a b : ℕ} (h : b ≤ a) : sub32 a b = a - b := if_pos h

theorem sub32_lt {a : ℕ} (h : a < word32) (b : ℕ) : sub32 a b < word32 := by
  rw [sub32]
  split_ifs <;> omega

end Chaos.Word32
