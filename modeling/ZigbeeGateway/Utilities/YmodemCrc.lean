-- SUMMARY: CRC16 of ymodem.c is a polynomial remainder.
import Mathlib

/-!
# The CRC of YMODEM

`CRC16` of `components/utilities/ymodem/ymodem.c` takes a byte at a time and looks up what the upper byte
of the register leaves modulo `x^16 + x^12 + x^5 + 1`. A number stands for the polynomial of its bits: a
xor is then a sum, and a shift is a product with a power of `X`.
-/

namespace RtThread.Ymodem

open Polynomial

/-! ## Numbers as polynomials -/

/-- The polynomial with the bits of a number as coefficients. -/
noncomputable def poly (n : Nat) : (ZMod 2)[X] := Nat.ofDigits X (Nat.digits 2 n)

theorem poly_eq (n : Nat) : poly n = (n : (ZMod 2)[X]) + X * poly (n / 2) := by
  rcases Nat.eq_zero_or_pos n with rfl | hn
  · simp [poly, Nat.ofDigits]
  · rw [CharP.cast_eq_mod _ 2 n, poly, Nat.digits_def' (by decide) hn]
    rfl

@[simp] theorem poly_zero : poly 0 = 0 := by simp [poly, Nat.ofDigits]

theorem poly_xor (m n : Nat) : poly (m ^^^ n) = poly m + poly n := by
  induction m using Nat.strongRecOn generalizing n with
  | ind m ih =>
    rcases Nat.eq_zero_or_pos m with rfl | hm
    · simp
    · have hcast : ((m ^^^ n : Nat) : (ZMod 2)[X]) = m + n := by
        rw [CharP.cast_eq_mod _ 2, Nat.xor_mod_two_eq, ← CharP.cast_eq_mod, Nat.cast_add]
      rw [poly_eq, hcast, Nat.xor_div_two, ih (m / 2) (by omega), poly_eq m, poly_eq n]
      ring

theorem poly_shift (n k : Nat) : poly (n <<< k) = poly n * X ^ k := by
  induction k with
  | zero => simp
  | succ k ih =>
    have hcast : ((2 * n <<< k : Nat) : (ZMod 2)[X]) = 0 := by
      rw [CharP.cast_eq_zero_iff _ 2]
      exact Nat.dvd_mul_right ..
    rw [Nat.shiftLeft_succ, poly_eq, hcast, Nat.mul_div_cancel_left _ (by decide), ih]
    ring

theorem poly_split (n k : Nat) : poly n = poly (n >>> k) * X ^ k + poly (n % 2 ^ k) := by
  rw [← poly_shift, ← poly_xor]
  refine congrArg poly (Nat.eq_of_testBit_eq fun i => ?_)
  rw [Nat.testBit_xor, Nat.testBit_shiftLeft, Nat.testBit_shiftRight, Nat.testBit_mod_two_pow]
  rcases Nat.lt_or_ge i k with hi | hi
  · simp [hi, Nat.not_le_of_lt hi]
  · simp [hi, Nat.not_lt_of_le hi]

theorem degree_poly {n k : Nat} (hn : n < 2 ^ k) : (poly n).degree < k := by
  induction k generalizing n with
  | zero => simp [Nat.lt_one_iff.mp hn]
  | succ k ih =>
    have hrest := (degree_lt_iff_coeff_zero _ _).mp (ih (n := n / 2) (by omega))
    refine (degree_lt_iff_coeff_zero _ _).mpr fun m hm => ?_
    obtain ⟨m, rfl⟩ : ∃ l, m = l + 1 := ⟨m - 1, by omega⟩
    rw [poly_eq, coeff_add, coeff_X_mul, hrest m (by omega)]
    simp

/-! ## The register -/

/-- `ccitt_table`. -/
def ccittTable : List (BitVec 16) := [
  0x0000, 0x1021, 0x2042, 0x3063, 0x4084, 0x50A5, 0x60C6, 0x70E7, 0x8108, 0x9129, 0xA14A, 0xB16B,
  0xC18C, 0xD1AD, 0xE1CE, 0xF1EF, 0x1231, 0x0210, 0x3273, 0x2252, 0x52B5, 0x4294, 0x72F7, 0x62D6,
  0x9339, 0x8318, 0xB37B, 0xA35A, 0xD3BD, 0xC39C, 0xF3FF, 0xE3DE, 0x2462, 0x3443, 0x0420, 0x1401,
  0x64E6, 0x74C7, 0x44A4, 0x5485, 0xA56A, 0xB54B, 0x8528, 0x9509, 0xE5EE, 0xF5CF, 0xC5AC, 0xD58D,
  0x3653, 0x2672, 0x1611, 0x0630, 0x76D7, 0x66F6, 0x5695, 0x46B4, 0xB75B, 0xA77A, 0x9719, 0x8738,
  0xF7DF, 0xE7FE, 0xD79D, 0xC7BC, 0x48C4, 0x58E5, 0x6886, 0x78A7, 0x0840, 0x1861, 0x2802, 0x3823,
  0xC9CC, 0xD9ED, 0xE98E, 0xF9AF, 0x8948, 0x9969, 0xA90A, 0xB92B, 0x5AF5, 0x4AD4, 0x7AB7, 0x6A96,
  0x1A71, 0x0A50, 0x3A33, 0x2A12, 0xDBFD, 0xCBDC, 0xFBBF, 0xEB9E, 0x9B79, 0x8B58, 0xBB3B, 0xAB1A,
  0x6CA6, 0x7C87, 0x4CE4, 0x5CC5, 0x2C22, 0x3C03, 0x0C60, 0x1C41, 0xEDAE, 0xFD8F, 0xCDEC, 0xDDCD,
  0xAD2A, 0xBD0B, 0x8D68, 0x9D49, 0x7E97, 0x6EB6, 0x5ED5, 0x4EF4, 0x3E13, 0x2E32, 0x1E51, 0x0E70,
  0xFF9F, 0xEFBE, 0xDFDD, 0xCFFC, 0xBF1B, 0xAF3A, 0x9F59, 0x8F78, 0x9188, 0x81A9, 0xB1CA, 0xA1EB,
  0xD10C, 0xC12D, 0xF14E, 0xE16F, 0x1080, 0x00A1, 0x30C2, 0x20E3, 0x5004, 0x4025, 0x7046, 0x6067,
  0x83B9, 0x9398, 0xA3FB, 0xB3DA, 0xC33D, 0xD31C, 0xE37F, 0xF35E, 0x02B1, 0x1290, 0x22F3, 0x32D2,
  0x4235, 0x5214, 0x6277, 0x7256, 0xB5EA, 0xA5CB, 0x95A8, 0x8589, 0xF56E, 0xE54F, 0xD52C, 0xC50D,
  0x34E2, 0x24C3, 0x14A0, 0x0481, 0x7466, 0x6447, 0x5424, 0x4405, 0xA7DB, 0xB7FA, 0x8799, 0x97B8,
  0xE75F, 0xF77E, 0xC71D, 0xD73C, 0x26D3, 0x36F2, 0x0691, 0x16B0, 0x6657, 0x7676, 0x4615, 0x5634,
  0xD94C, 0xC96D, 0xF90E, 0xE92F, 0x99C8, 0x89E9, 0xB98A, 0xA9AB, 0x5844, 0x4865, 0x7806, 0x6827,
  0x18C0, 0x08E1, 0x3882, 0x28A3, 0xCB7D, 0xDB5C, 0xEB3F, 0xFB1E, 0x8BF9, 0x9BD8, 0xABBB, 0xBB9A,
  0x4A75, 0x5A54, 0x6A37, 0x7A16, 0x0AF1, 0x1AD0, 0x2AB3, 0x3A92, 0xFD2E, 0xED0F, 0xDD6C, 0xCD4D,
  0xBDAA, 0xAD8B, 0x9DE8, 0x8DC9, 0x7C26, 0x6C07, 0x5C64, 0x4C45, 0x3CA2, 0x2C83, 0x1CE0, 0x0CC1,
  0xEF1F, 0xFF3E, 0xCF5D, 0xDF7C, 0xAF9B, 0xBFBA, 0x8FD9, 0x9FF8, 0x6E17, 0x7E36, 0x4E55, 0x5E74,
  0x2E93, 0x3EB2, 0x0ED1, 0x1EF0]

/-- The body of the loop of `CRC16`. -/
def crcByte (crc : BitVec 16) (b : BitVec 8) : BitVec 16 :=
  (crc <<< 8) ^^^ ccittTable.getD (((crc >>> 8) ^^^ b.setWidth 16) &&& 0xff).toNat 0

/-- `CRC16`. -/
def crc16 (q : List (BitVec 8)) : BitVec 16 := q.foldl crcByte 0

/-- The polynomial of the bits of a sequence, the most significant bit first. -/
noncomputable def message (q : List (BitVec 8)) : (ZMod 2)[X] :=
  q.foldl (fun p b => p * X ^ 8 + poly b.toNat) 0

noncomputable def generator : (ZMod 2)[X] := X ^ 16 + X ^ 12 + X ^ 5 + 1

theorem poly_generator : poly 0x11021 = generator := by
  simp [poly, Nat.ofDigits, generator]
  ring

/-- A step of the long division: it clears the bit `k + 16`. -/
def divStep (n k : Nat) : Nat := if n.testBit (k + 16) then n ^^^ (0x11021 <<< k) else n

theorem poly_divSteps (l : List Nat) (n : Nat) :
    ∃ d, poly (l.foldl divStep n) = poly n + d * generator := by
  induction l generalizing n with
  | nil => exact ⟨0, by simp⟩
  | cons k l ih =>
    obtain ⟨d, hd⟩ := ih (divStep n k)
    rw [List.foldl_cons, hd, divStep]
    split
    · exact ⟨d + X ^ k, by rw [poly_xor, poly_shift, poly_generator]; ring⟩
    · exact ⟨d, rfl⟩

/-- The entries are what the long division leaves. -/
theorem poly_ccittTable {i : Nat} (hi : i < 256) :
    ∃ d, poly (ccittTable.getD i 0).toNat = poly i * X ^ 16 + d * generator := by
  have hall : ∀ i < 256,
      (ccittTable.getD i 0).toNat = [7, 6, 5, 4, 3, 2, 1, 0].foldl divStep (i <<< 16) := by
    decide +kernel
  rw [hall i hi, ← poly_shift]
  exact poly_divSteps _ _

theorem poly_crcByte (crc : BitVec 16) (b : BitVec 8) :
    ∃ d, poly (crcByte crc b).toNat =
      poly crc.toNat * X ^ 8 + poly b.toNat * X ^ 16 + d * generator := by
  have hcrc := crc.isLt
  have hlt : (crc.toNat >>> 8) ^^^ b.toNat < 2 ^ 8 :=
    Nat.xor_lt_two_pow (by rw [Nat.shiftRight_eq_div_pow]; omega) b.isLt
  have hindex : (((crc >>> 8) ^^^ b.setWidth 16) &&& 0xff).toNat = (crc.toNat >>> 8) ^^^ b.toNat := by
    rw [BitVec.toNat_and, BitVec.toNat_xor, BitVec.toNat_ushiftRight,
      BitVec.toNat_setWidth_of_le (by decide)]
    exact (Nat.and_two_pow_sub_one_eq_mod _ 8).trans (Nat.mod_eq_of_lt hlt)
  have hshift : (crc <<< 8).toNat = (crc.toNat % 2 ^ 8) <<< 8 := by
    rw [BitVec.toNat_shiftLeft, Nat.shiftLeft_eq, Nat.shiftLeft_eq]
    omega
  -- the upper byte and `b` leave what the table says, and the lower byte is only shifted
  obtain ⟨d, hd⟩ := poly_ccittTable hlt
  refine ⟨d, ?_⟩
  rw [crcByte, hindex, BitVec.toNat_xor, hshift, poly_xor, poly_shift, hd, poly_xor,
    poly_split crc.toNat 8]
  ring

theorem poly_crc16 (q : List (BitVec 8)) :
    ∃ d, poly (crc16 q).toNat = message q * X ^ 16 + d * generator := by
  induction q using List.reverseRecOn with
  | nil => exact ⟨0, by simp [crc16, message]⟩
  | append_singleton q b ih =>
    obtain ⟨d, hd⟩ := ih
    obtain ⟨e, he⟩ := poly_crcByte (crc16 q) b
    refine ⟨d * X ^ 8 + e, ?_⟩
    simp only [crc16, message, List.foldl_append, List.foldl_cons, List.foldl_nil] at *
    rw [he, hd]
    ring

/-- `CRC16` is the remainder of the message with 16 zero bits behind it. The CRC of a message with its
own CRC behind it, the upper byte first, is 0. -/
theorem crc16_remainder (q : List (BitVec 8)) :
    poly (crc16 q).toNat = (message q * X ^ 16) %ₘ generator ∧
      crc16 (q ++ [(crc16 q >>> 8).setWidth 8, (crc16 q).setWidth 8]) = 0 := by
  constructor
  · obtain ⟨d, hd⟩ := poly_crc16 q
    have hmonic : generator.Monic := by
      unfold generator
      monicity!
    have hdegree : generator.degree = 16 := by
      unfold generator
      compute_degree!
    refine ((div_modByMonic_unique (-d) _ hmonic ⟨?_, ?_⟩).2).symm
    · rw [hd]
      ring
    · rw [hdegree]
      exact degree_poly (crc16 q).isLt
  · -- the upper byte of the register meets itself twice, and the entry of 0 is 0.
    have hhigh : ∀ crc : BitVec 16, crcByte crc ((crc >>> 8).setWidth 8) = crc <<< 8 := by
      intro crc
      have hbyte : ((crc >>> 8).setWidth 8).setWidth 16 = crc >>> 8 := by bv_omega
      rw [crcByte, hbyte, BitVec.xor_self]
      exact BitVec.xor_zero
    rw [crc16, List.foldl_append, ← crc16]
    generalize crc16 q = crc
    have hlow : crc.setWidth 8 = ((crc <<< 8) >>> 8).setWidth 8 := by bv_omega
    rw [List.foldl_cons, List.foldl_cons, hhigh, hlow, hhigh]
    simp

end RtThread.Ymodem
