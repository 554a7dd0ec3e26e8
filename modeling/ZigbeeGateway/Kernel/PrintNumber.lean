-- SUMMARY: The digits that print_number collects.
import Mathlib.Data.Nat.Digits.Lemmas

/-!
# The digits of a number

`print_number` collects the digits of a number in a buffer of 16 characters, the last digit first. `divide`
knows two bases only: whatever is not base 10 is divided by 16, also the base 8 of `%o`.
-/

namespace RtThread

/-- `divide` of an unsigned number: the remainder, and the number that is left. -/
def divide (n base : Nat) : Nat × Nat := if base = 10 then (n % 10, n / 10) else (n % 16, n / 16)

/-- The loop of `print_number` with `room` bytes of `tmp` left. A store behind `tmp` has no result. -/
def divideLoop (digits : List Char) (base : Nat) : Nat → Nat → Option (List Char)
  | _, 0 => some []
  | 0, _ + 1 => none
  | room + 1, num + 1 =>
    (divideLoop digits base room (divide (num + 1) base).2).map
      (digits.getD (divide (num + 1) base).1 '0' :: ·)

def digitChars (large : Bool) : List Char :=
  (if large then "0123456789ABCDEF" else "0123456789abcdef").toList

/-- The part of `print_number` that fills `tmp`, by the flags `SIGN` and `LARGE`. -/
def printDigits (num : BitVec 32) (base : Nat) (sign large : Bool) : Option (List Char) :=
  let num := if sign ∧ num.toInt < 0 then -num else num
  if num = 0 then some ['0'] else divideLoop (digitChars large) base 16 num.toNat

/-- The number that a conversion is about. -/
def magnitude (num : BitVec 32) (sign : Bool) : Nat := if sign then num.toInt.natAbs else num.toNat

/-- The number `n` in a base without leading zeros, the last digit first. -/
def numeral (digits : List Char) (base n : Nat) : List Char :=
  if n = 0 then ['0'] else (Nat.digits base n).map (digits.getD · '0')

/-- The base in which `divide` divides. -/
def radix (base : Nat) : Nat := if base = 10 then 10 else 16

theorem ten_le_radix (base : Nat) : 10 ≤ radix base := by
  unfold radix
  split <;> decide

theorem divide_eq (n base : Nat) : divide n base = (n % radix base, n / radix base) := by
  unfold divide radix
  split <;> rfl

theorem divideLoop_eq (digits : List Char) (base : Nat) {room num : Nat}
    (hroom : num < radix base ^ room) :
    divideLoop digits base room num = some ((Nat.digits (radix base) num).map (digits.getD · '0')) := by
  have hradix := ten_le_radix base
  fun_induction divideLoop digits base room num with
  | case1 => simp
  | case2 => simp at hroom
  | case3 room num ih =>
    rw [divide_eq] at ih ⊢
    rw [ih (Nat.div_lt_of_lt_mul (by rwa [← Nat.pow_succ'])), Nat.digits_def' (by omega) num.succ_pos]
    rfl

/-- The digits fit into `tmp`, and they are the digits in the base of `divide`. -/
theorem printDigits_eq (num : BitVec 32) (base : Nat) (sign large : Bool) :
    printDigits num base sign large =
      some (numeral (digitChars large) (radix base) (magnitude num sign)) := by
  have hmag : (if sign ∧ num.toInt < 0 then -num else num).toNat = magnitude num sign := by
    have hint := num.toInt_eq_toNat_cond
    have hneg := num.toNat_neg
    have hlt := num.isLt
    unfold magnitude
    cases sign <;> simp only [true_and, Bool.false_eq_true, false_and, if_true, if_false]
    split_ifs at * <;> omega
  unfold printDigits
  generalize (if sign ∧ num.toInt < 0 then -num else num) = n at *
  have hroom : n.toNat < radix base ^ 16 :=
    Nat.lt_of_lt_of_le (Nat.lt_trans n.isLt (by decide)) (Nat.pow_le_pow_left (ten_le_radix base) 16)
  simp only [← hmag, numeral, divideLoop_eq _ base hroom, ← apply_ite, BitVec.toNat_eq]
  rfl

/-- The characters tell the digits apart. -/
theorem map_digitChars {large : Bool} {l : List Nat} (hl : ∀ d ∈ l, d < 16) :
    (l.map ((digitChars large).getD · '0')).map ((digitChars large).idxOf ·) = l := by
  have hchar : ∀ d < 16, (digitChars large).idxOf ((digitChars large).getD d '0') = d := by
    cases large <;> decide
  rw [List.map_map]
  exact (List.map_congr_left fun d hd => hchar d (hl d hd)).trans (List.map_id l)

/-- The digits in base 16 are those in base 8 only for a number below 8. -/
theorem digits_octal_iff {n : Nat} (hn : 0 < n) : Nat.digits 16 n = Nat.digits 8 n ↔ n < 8 := by
  constructor
  · intro h
    rw [Nat.digits_def' (b := 16) (by decide) hn, Nat.digits_def' (b := 8) (by decide) hn] at h
    obtain ⟨hlast, hrest⟩ := List.cons.inj h
    have hmono : Nat.ofDigits 8 (Nat.digits 16 (n / 16)) ≤ Nat.ofDigits 16 (Nat.digits 16 (n / 16)) :=
      Nat.ofDigits_monotone _ (by decide)
    rw [Nat.ofDigits_digits, hrest, Nat.ofDigits_digits] at hmono
    omega
  · intro h
    rw [Nat.digits_of_lt 16 _ hn.ne' (by omega), Nat.digits_of_lt 8 _ hn.ne' h]

/-- For the bases of `rt_vsnprintf` the digits are those of the number in the base, except in base 8, in
which a number above 7 gets the digits of base 16. -/
theorem printDigits_iff (num : BitVec 32) {base : Nat} (hbase : base = 8 ∨ base = 10 ∨ base = 16)
    (sign large : Bool) :
    printDigits num base sign large = some (numeral (digitChars large) base (magnitude num sign)) ↔
      (base = 8 → magnitude num sign < 8) := by
  rw [printDigits_eq]
  rcases hbase with rfl | rfl | rfl
  · generalize magnitude num sign = n
    rw [show radix 8 = 16 from rfl, Option.some_inj, numeral, numeral]
    split
    next hzero => simp [hzero]
    next hn =>
      rw [← digits_octal_iff (Nat.pos_of_ne_zero hn)]
      refine ⟨fun h _ => ?_, fun h => by rw [h rfl]⟩
      have hidx := congrArg (List.map ((digitChars large).idxOf ·)) h
      rwa [map_digitChars fun d hd => Nat.digits_lt_base (by decide) hd,
        map_digitChars fun d hd => Nat.lt_trans (Nat.digits_lt_base (by decide) hd) (by decide)] at hidx
  · exact iff_of_true rfl nofun
  · exact iff_of_true rfl nofun

/-- The smallest number in base 10. -/
theorem printDigits_iff_min : printDigits (BitVec.intMin 32) 10 true false =
    some (numeral (digitChars false) 10 2147483648) :=
  (printDigits_iff _ (.inr (.inl rfl)) true false).mpr nofun

/-- 8 in base 8. -/
theorem printDigits_octal : printDigits 8 8 false false = some ['8'] ∧
    numeral (digitChars false) 8 8 = ['0', '1'] := by
  decide

end RtThread
