-- SUMMARY: Unsigned 32-bit arithmetic on naturals.
import Mathlib.Tactic.Linarith

/-!
# Wrapped words

A 32-bit unsigned word is a natural number below `2 ^ 32`. The operations wrap
like the unsigned operations of C. A counter that grows for ever and is kept in
a word is compared through the difference of two readings; the last section says
what that difference is when the two readings are close to each other.
-/

namespace Word

/-- The number of 32-bit words. -/
abbrev size32 : Nat := 4294967296

def add32 (a b : Nat) : Nat := (a + b) % size32

def sub32 (a b : Nat) : Nat := (a + (size32 - b % size32)) % size32

def mul32 (a b : Nat) : Nat := (a * b) % size32

theorem add32_lt (a b : Nat) : add32 a b < size32 := Nat.mod_lt _ (by decide)

theorem add32_comm (a b : Nat) : add32 a b = add32 b a := by rw [add32, add32, Nat.add_comm]

theorem add32_eq {a b : Nat} (h : a + b < size32) : add32 a b = a + b := Nat.mod_eq_of_lt h

theorem sub32_eq {a b : Nat} (hba : b ≤ a) (ha : a < size32) : sub32 a b = a - b := by
  unfold sub32 size32 at *
  omega

theorem sub32_add32 {a b : Nat} (ha : a < size32) : sub32 (add32 a b) b = a := by
  unfold sub32 add32 size32 at *
  omega

theorem add32_sub32 {a b : Nat} (ha : a < size32) : add32 (sub32 a b) b = a := by
  unfold sub32 add32 size32 at *
  omega

/-! ## Differences of wrapped counters -/

/-- The later reading minus the earlier one is the time between them. -/
theorem sub32_mod_of_le {a b : Nat} (hba : b ≤ a) (hclose : a - b < size32) :
    sub32 (a % size32) (b % size32) = a - b := by
  unfold sub32 size32 at *
  omega

/-- The earlier reading minus the later one wraps to the complement. -/
theorem sub32_mod_of_lt {a b : Nat} (hab : a < b) (hclose : b - a < size32) :
    sub32 (a % size32) (b % size32) = size32 - (b - a) := by
  unfold sub32 size32 at *
  omega

end Word
