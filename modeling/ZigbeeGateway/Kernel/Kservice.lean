-- SUMMARY: The find-first-set of kservice.c and the alignment macro.
import Mathlib.Data.Nat.Bitwise
import ZigbeeGateway.Lib.Word

/-!
# Find first set, and alignment

`__rt_ffs` looks at the four bytes of its argument in turn and finds the lowest
set bit of the first non-zero byte in a table of 256 entries. `RT_ALIGN` rounds up
by a mask, in `rt_size_t`.
-/

namespace RtThread

open Word

/-- `RT_ALIGN(size, RT_ALIGN_SIZE)` with an `RT_ALIGN_SIZE` of 4. -/
def rtAlign (size : Nat) : Nat := add32 size 3 &&& 0xfffffffc

/-- `RT_ALIGN_DOWN(size, RT_ALIGN_SIZE)`. -/
def rtAlignDown (size : Nat) : Nat := size &&& 0xfffffffc

/-- The mask clears the low bits of a word. -/
theorem and_mask {k : Nat} (hk : k ≤ 32) (n : Nat) :
    n &&& (size32 - 2 ^ k) = n % size32 / 2 ^ k * 2 ^ k := by
  have hmask : size32 - 2 ^ k = (2 ^ (32 - k) - 1) <<< k := by
    rw [Nat.shiftLeft_eq, Nat.sub_mul, Nat.one_mul, ← Nat.pow_add, Nat.sub_add_cancel hk]
  have hshift : n % size32 / 2 ^ k * 2 ^ k = ((n % 2 ^ 32) >>> k) <<< k := by
    rw [Nat.shiftRight_eq_div_pow, Nat.shiftLeft_eq]
    rfl
  rw [hmask, hshift]
  apply Nat.eq_of_testBit_eq
  intro i
  simp only [Nat.testBit_and, Nat.testBit_shiftLeft, Nat.testBit_two_pow_sub_one,
    Nat.testBit_shiftRight, Nat.testBit_mod_two_pow]
  by_cases hi : k ≤ i
  · have hbit : i < 32 ↔ i - k < 32 - k := by omega
    have hsum : k + (i - k) = i := by omega
    simp only [hi, hbit, hsum, Bool.and_comm, decide_true, Bool.true_and]
  · simp [hi]

theorem rtAlignDown_eq (size : Nat) : rtAlignDown size = size % size32 / 4 * 4 :=
  and_mask (k := 2) (by decide) size

theorem rtAlign_eq (size : Nat) : rtAlign size = add32 size 3 / 4 * 4 := by
  have halign : rtAlign size = rtAlignDown (add32 size 3) := rfl
  rw [halign, rtAlignDown_eq, Nat.mod_eq_of_lt (add32_lt size 3)]

theorem rtAlign_mod_four (size : Nat) : rtAlign size % 4 = 0 := by
  rw [rtAlign_eq]
  omega

theorem rtAlign_le (size : Nat) : rtAlign size ≤ 0xfffffffc := by
  have hlt := add32_lt size 3
  rw [rtAlign_eq]
  unfold size32 at hlt
  omega

/-- Only the last three words are rounded to zero. -/
theorem le_rtAlign {size : Nat} (hsize : size ≤ 0xfffffffc) : size ≤ rtAlign size := by
  have hlt : size + 3 < size32 := by
    unfold size32
    omega
  rw [rtAlign_eq, add32_eq hlt]
  omega

/-- `__lowest_bit_bitmap`. -/
def lowestBitBitmap : List Nat := [
  /- 00 -/ 0, 0, 1, 0, 2, 0, 1, 0, 3, 0, 1, 0, 2, 0, 1, 0,
  /- 10 -/ 4, 0, 1, 0, 2, 0, 1, 0, 3, 0, 1, 0, 2, 0, 1, 0,
  /- 20 -/ 5, 0, 1, 0, 2, 0, 1, 0, 3, 0, 1, 0, 2, 0, 1, 0,
  /- 30 -/ 4, 0, 1, 0, 2, 0, 1, 0, 3, 0, 1, 0, 2, 0, 1, 0,
  /- 40 -/ 6, 0, 1, 0, 2, 0, 1, 0, 3, 0, 1, 0, 2, 0, 1, 0,
  /- 50 -/ 4, 0, 1, 0, 2, 0, 1, 0, 3, 0, 1, 0, 2, 0, 1, 0,
  /- 60 -/ 5, 0, 1, 0, 2, 0, 1, 0, 3, 0, 1, 0, 2, 0, 1, 0,
  /- 70 -/ 4, 0, 1, 0, 2, 0, 1, 0, 3, 0, 1, 0, 2, 0, 1, 0,
  /- 80 -/ 7, 0, 1, 0, 2, 0, 1, 0, 3, 0, 1, 0, 2, 0, 1, 0,
  /- 90 -/ 4, 0, 1, 0, 2, 0, 1, 0, 3, 0, 1, 0, 2, 0, 1, 0,
  /- A0 -/ 5, 0, 1, 0, 2, 0, 1, 0, 3, 0, 1, 0, 2, 0, 1, 0,
  /- B0 -/ 4, 0, 1, 0, 2, 0, 1, 0, 3, 0, 1, 0, 2, 0, 1, 0,
  /- C0 -/ 6, 0, 1, 0, 2, 0, 1, 0, 3, 0, 1, 0, 2, 0, 1, 0,
  /- D0 -/ 4, 0, 1, 0, 2, 0, 1, 0, 3, 0, 1, 0, 2, 0, 1, 0,
  /- E0 -/ 5, 0, 1, 0, 2, 0, 1, 0, 3, 0, 1, 0, 2, 0, 1, 0,
  /- F0 -/ 4, 0, 1, 0, 2, 0, 1, 0, 3, 0, 1, 0, 2, 0, 1, 0]

/-- `__rt_ffs`. Every index is one byte, so the default of `getD` is never used. -/
def rtFfs (value : BitVec 32) : Nat :=
  if value = 0 then 0
  else if value &&& 0xff#32 ≠ 0 then
    lowestBitBitmap.getD (value &&& 0xff#32).toNat 0 + 1
  else if value &&& 0xff00#32 ≠ 0 then
    lowestBitBitmap.getD ((value &&& 0xff00#32) >>> 8).toNat 0 + 9
  else if value &&& 0xff0000#32 ≠ 0 then
    lowestBitBitmap.getD ((value &&& 0xff0000#32) >>> 16).toNat 0 + 17
  else
    lowestBitBitmap.getD ((value &&& 0xff000000#32) >>> 24).toNat 0 + 25

/-- Bit `p` is the lowest set bit of `v`. -/
def LowestBit (v : BitVec 32) (p : Nat) : Prop :=
  v.getLsbD p = true ∧ ∀ q < p, v.getLsbD q = false

/-- One check of the table covers every non-zero byte. -/
theorem lowestBitBitmap_spec : ∀ b : Fin 256, b.val ≠ 0 →
    (b.val.testBit (lowestBitBitmap.getD b 0) = true ∧ lowestBitBitmap.getD b 0 < 8 ∧
      ∀ q < lowestBitBitmap.getD b 0, b.val.testBit q = false) := by
  decide +kernel

variable {v : BitVec 32} {n : Nat}

/-- The byte of `v` at bit `n`, in place. -/
def byteMask (n : Nat) : BitVec 32 := 0xff#32 <<< n

theorem getLsbD_byteMask {i : Nat} (hn : n + 8 ≤ 32) :
    (byteMask n).getLsbD i = (decide (n ≤ i) && decide (i < n + 8)) := by
  have hff : (0xff#32).getLsbD (i - n) = decide (i - n < 8) := by
    rw [BitVec.getLsbD_ofNat, show 0xff = 2 ^ 8 - 1 by rfl, Nat.testBit_two_pow_sub_one]
    grind
  rw [byteMask, BitVec.getLsbD_shiftLeft, hff]
  grind

theorem byteMask_testBit (v : BitVec 32) {n i : Nat} (hn : n + 8 ≤ 32) (hi : i < 8) :
    ((v &&& byteMask n) >>> n).toNat.testBit i = v.getLsbD (n + i) := by
  rw [BitVec.testBit_toNat, BitVec.getLsbD_ushiftRight, BitVec.getLsbD_and,
    getLsbD_byteMask hn]
  simp [hi]

theorem byteMask_lt (v : BitVec 32) {n : Nat} (hn : n + 8 ≤ 32) :
    ((v &&& byteMask n) >>> n).toNat < 256 := by
  apply Nat.lt_pow_two_of_testBit (n := 8)
  intro i hi
  rw [BitVec.testBit_toNat, BitVec.getLsbD_ushiftRight, BitVec.getLsbD_and,
    getLsbD_byteMask hn]
  simp; omega

theorem byteMask_clear (hn : n + 8 ≤ 32) (h : v &&& byteMask n = 0)
    (hlow : ∀ q < n, v.getLsbD q = false) : ∀ q < n + 8, v.getLsbD q = false := by
  intro q hq
  by_cases hqn : q < n
  · exact hlow q hqn
  · have hand := congrArg (BitVec.getLsbD · q) h
    simpa [getLsbD_byteMask hn, hq, Nat.le_of_not_lt hqn] using hand

theorem byteMask_shift_ne (hn : n + 8 ≤ 32)
    (h : v &&& byteMask n ≠ 0) : ((v &&& byteMask n) >>> n).toNat ≠ 0 := by
  intro h0
  apply h
  apply BitVec.eq_of_getLsbD_eq
  intro i _
  rw [BitVec.getLsbD_and, getLsbD_byteMask hn]
  by_cases hi : n ≤ i ∧ i < n + 8
  · have hbit := byteMask_testBit v hn (i := i - n) (by omega)
    rw [h0, Nat.zero_testBit, Nat.add_sub_cancel' hi.1] at hbit
    simp [← hbit]
  · grind

/-- One round of `__rt_ffs`: the table finds the lowest set bit of the byte of `v` at bit `n`, and that is
the lowest set bit of `v` when all bits below `n` are clear. -/
theorem lowestBit_round (hn : n + 8 ≤ 32) (h : v &&& byteMask n ≠ 0)
    (hlow : ∀ q < n, v.getLsbD q = false) :
    LowestBit v (lowestBitBitmap.getD ((v &&& byteMask n) >>> n).toNat 0 + n) := by
  have hbyte := fun i hi => byteMask_testBit v (i := i) hn hi
  have hlt := byteMask_lt v hn
  have hne := byteMask_shift_ne hn h
  generalize ((v &&& byteMask n) >>> n).toNat = byte at *
  obtain ⟨hset, hlt8, hclear⟩ := lowestBitBitmap_spec ⟨byte, hlt⟩ hne
  constructor
  · rw [Nat.add_comm, ← hbyte _ hlt8]
    exact hset
  · intro q hq
    by_cases hqn : q < n
    · exact hlow q hqn
    · have hq' := hclear (q - n) (by simp only; omega)
      rw [hbyte _ (by simp only at hlt8; omega)] at hq'
      rwa [Nat.add_sub_cancel' (by omega)] at hq'

/-- `__rt_ffs` numbers the lowest set bit, starting at one. -/
theorem rtFfs_spec (hv : v ≠ 0) : ∃ p, rtFfs v = p + 1 ∧ LowestBit v p := by
  have h0 : ∀ q < 0, v.getLsbD q = false := by omega
  unfold rtFfs
  rw [if_neg hv]
  by_cases hb0 : v &&& 0xff#32 ≠ 0
  · rw [if_pos hb0]
    exact ⟨_, rfl, lowestBit_round (n := 0) (by omega) hb0 h0⟩
  have h8 := byteMask_clear (n := 0) (by omega) (not_not.mp hb0) h0
  rw [if_neg hb0]
  by_cases hb1 : v &&& 0xff00#32 ≠ 0
  · rw [if_pos hb1]
    exact ⟨_, rfl, lowestBit_round (n := 8) (by omega) hb1 h8⟩
  have h16 := byteMask_clear (n := 8) (by omega) (not_not.mp hb1) h8
  rw [if_neg hb1]
  by_cases hb2 : v &&& 0xff0000#32 ≠ 0
  · rw [if_pos hb2]
    exact ⟨_, rfl, lowestBit_round (n := 16) (by omega) hb2 h16⟩
  have h24 := byteMask_clear (n := 16) (by omega) (not_not.mp hb2) h16
  rw [if_neg hb2]
  -- the last byte is not tested: it is non-zero because the three below it are zero
  have hb3 : v &&& 0xff000000#32 ≠ 0 := by
    intro hb3
    have h32 := byteMask_clear (n := 24) (by omega) hb3 h24
    exact hv (BitVec.eq_of_getLsbD_eq fun i hi => by simpa using h32 i hi)
  exact ⟨_, rfl, lowestBit_round (n := 24) (by omega) hb3 h24⟩

theorem LowestBit.lt {p : Nat} (h : LowestBit v p) : p < 32 := by
  by_contra hp
  rw [LowestBit, BitVec.getLsbD_of_ge v p (by omega)] at h
  exact Bool.noConfusion h.1

end RtThread
