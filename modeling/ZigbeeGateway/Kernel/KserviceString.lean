-- SUMMARY: rt_strlen, rt_memcmp and rt_strstr.
import Mathlib.Data.UInt
import ZigbeeGateway.Lib.CString

/-!
# Searching a string

A pointer into a buffer is the list of the bytes from there to the end of the buffer, and a read
behind the end has no result. `rt_strstr` reads no byte behind the terminators of its two strings.
-/

namespace RtThread

open CString

/-- `rt_strlen`. -/
def rtStrlen : List UInt8 → Option Nat
  | [] => none
  | c :: s => if c ≠ 0 then (rtStrlen s).map (· + 1) else some 0

/-- `rt_memcmp`. -/
def rtMemcmp : List UInt8 → List UInt8 → Nat → Option Int
  | _, _, 0 => some 0
  | a :: cs, b :: ct, count + 1 =>
    let res : Int := a.toNat - b.toNat
    if res ≠ 0 then some res else rtMemcmp cs ct count
  | _, _, _ + 1 => none

/-- The loop of `rt_strstr`, where `s1` has moved on by `pos` bytes. There is no round with
`l1 = 0`, since `l2` is not 0. -/
def strstrLoop (s2 : List UInt8) (l2 : Nat) : Nat → List UInt8 → Nat → Option (Option Nat)
  | 0, _, _ => some none
  | l1 + 1, s1, pos =>
    if l2 ≤ l1 + 1 then do
      let res ← rtMemcmp s1 s2 l2
      if res = 0 then return some pos else strstrLoop s2 l2 l1 (s1.drop 1) (pos + 1)
    else
      some none

/-- `rt_strstr`, with the offset of the result in `s1`, or `none` for `RT_NULL`. -/
def rtStrstr (s1 s2 : List UInt8) : Option (Option Nat) := do
  let l2 ← rtStrlen s2
  if l2 = 0 then return some 0 else do
  let l1 ← rtStrlen s1
  strstrLoop s2 l2 l1 s1 0

/-! ## What the functions compute -/

variable {s s1 s2 cs ct text pat rest : List UInt8}

theorem rtStrlen_append (htext : 0 ∉ text) : rtStrlen (text ++ 0 :: rest) = some text.length := by
  induction text with
  | nil => rfl
  | cons c text ih =>
    obtain ⟨hc, htext⟩ := not_or.mp (List.mem_cons.not.mp htext)
    rw [List.cons_append, rtStrlen, if_pos (Ne.symm hc), ih htext]
    rfl

/-- The comparison is 0 exactly for equal bytes. -/
theorem rtMemcmp_spec {n : Nat} (hcs : n ≤ cs.length) (hct : n ≤ ct.length) :
    ∃ res, rtMemcmp cs ct n = some res ∧ (res = 0 ↔ cs.take n = ct.take n) := by
  induction n generalizing cs ct with
  | zero => exact ⟨0, by simp [rtMemcmp], by simp⟩
  | succ n ih =>
    obtain ⟨a, cs, rfl⟩ := List.exists_cons_of_length_pos (by omega : 0 < cs.length)
    obtain ⟨b, ct, rfl⟩ := List.exists_cons_of_length_pos (by omega : 0 < ct.length)
    by_cases hab : (a.toNat : Int) - b.toNat = 0
    · obtain ⟨res, hres, hiff⟩ := ih (Nat.le_of_succ_le_succ hcs) (Nat.le_of_succ_le_succ hct)
      have heq : a = b := UInt8.toNat_inj.mp (by omega)
      refine ⟨res, ?_, ?_⟩
      · rw [rtMemcmp, if_neg (not_not.mpr hab), hres]
      · simp [hiff, heq]
    · refine ⟨_, if_pos hab, iff_of_false hab fun htake => hab ?_⟩
      simp only [List.take_succ_cons, List.cons.injEq] at htake
      rw [htake.1]
      omega

/-- What a search for `pat` in `text` must return: the first place where `pat` is found. -/
def FirstAt (pat text : List UInt8) : Option Nat → Prop
  | some i => pat <+: text.drop i ∧ ∀ j < i, ¬ pat <+: text.drop j
  | none => ∀ j, ¬ pat <+: text.drop j

theorem FirstAt.unique {r r' : Option Nat} (hr : FirstAt pat text r) (hr' : FirstAt pat text r') :
    r' = r := by
  cases r with
  | none =>
    cases r' with
    | none => rfl
    | some j => exact absurd hr'.1 (hr j)
  | some i =>
    cases r' with
    | none => exact absurd hr.1 (hr' i)
    | some j =>
      obtain hlt | rfl | hlt := Nat.lt_trichotomy i j
      · exact absurd hr.1 (hr'.2 i hlt)
      · rfl
      · exact absurd hr'.1 (hr.2 j hlt)

theorem not_prefix_of_length_lt {j : Nat} (h : text.length < pat.length) : ¬ pat <+: text.drop j := by
  intro hpre
  have hle := hpre.length_le
  rw [List.length_drop] at hle
  omega

theorem strstrLoop_spec (hpat : pat ≠ []) (hs2 : pat <+: s2) (text rest : List UInt8) (pos : Nat) :
    ∃ r, strstrLoop s2 pat.length text.length (text ++ rest) pos = some (r.map (· + pos)) ∧
      FirstAt pat text r := by
  induction text generalizing pos with
  | nil =>
    refine ⟨none, rfl, fun j => not_prefix_of_length_lt ?_⟩
    exact List.length_pos_iff.mpr hpat
  | cons c text ih =>
    simp only [List.length_cons, List.cons_append, strstrLoop]
    by_cases hlen : pat.length ≤ text.length + 1
    · have hroom : pat.length ≤ (c :: (text ++ rest)).length := by
        simp only [List.length_cons, List.length_append]
        omega
      obtain ⟨res, hres, hiff⟩ := rtMemcmp_spec hroom hs2.length_le
      have hfound : res = 0 ↔ pat <+: c :: text := by
        rw [hiff, List.prefix_iff_eq_take.mp hs2 |>.symm, List.prefix_iff_eq_take, eq_comm,
          ← List.cons_append, List.take_append_of_le_length (by simpa using hlen)]
      rw [if_pos hlen, hres]
      by_cases hzero : res = 0
      · refine ⟨some 0, ?_, hfound.mp hzero, fun j hj => absurd hj (Nat.not_lt_zero j)⟩
        simp [hzero]
      · obtain ⟨r, hr, hfirst⟩ := ih (pos + 1)
        refine ⟨r.map (· + 1), ?_, ?_⟩
        · simp only [Option.bind_eq_bind, Option.bind_some, if_neg hzero, List.drop_one, List.tail_cons, hr,
            Option.map_map]
          congr 2
          funext i
          simp only [Function.comp_apply]
          omega
        · -- the occurrences in the rest are those behind the first byte
          have hnot : ¬ pat <+: c :: text := fun hpre => hzero (hfound.mpr hpre)
          cases r with
          | none =>
            intro j
            cases j with
            | zero => exact hnot
            | succ j => exact hfirst j
          | some i =>
            refine ⟨hfirst.1, fun j hj => ?_⟩
            cases j with
            | zero => exact hnot
            | succ j => exact hfirst.2 j (Nat.lt_of_succ_lt_succ hj)
    · refine ⟨none, if_neg hlen, fun j => not_prefix_of_length_lt ?_⟩
      rw [List.length_cons]
      omega

/-- `rt_strstr` finds the first occurrence. -/
theorem rtStrstr_spec (h1 : string s1 = some text) (h2 : string s2 = some pat) :
    ∃ r, rtStrstr s1 s2 = some r ∧ FirstAt pat text r := by
  obtain ⟨htext, rest, rfl⟩ := string_eq_some h1
  obtain ⟨hpat, rest2, rfl⟩ := string_eq_some h2
  rw [rtStrstr, rtStrlen_append hpat, rtStrlen_append htext]
  simp only [Option.bind_eq_bind, Option.bind_some]
  by_cases hnil : pat = []
  · subst hnil
    exact ⟨some 0, rfl, List.nil_prefix, fun j hj => absurd hj (Nat.not_lt_zero j)⟩
  · rw [if_neg (fun hlen => hnil (List.length_eq_zero_iff.mp hlen))]
    obtain ⟨r, hr, hfirst⟩ :=
      strstrLoop_spec hnil (List.prefix_append pat (0 :: rest2)) text (0 :: rest) 0
    exact ⟨r, by simpa using hr, hfirst⟩

/-- The result does not depend on what follows the terminators. The buffers may also end there, and
then a read behind a terminator would have no result. -/
theorem rtStrstr_first (htext : 0 ∉ text) (hpat : 0 ∉ pat) :
    ∃ r, FirstAt pat text r ∧
      ∀ rest1 rest2, rtStrstr (text ++ 0 :: rest1) (pat ++ 0 :: rest2) = some r := by
  have hspec := fun rest1 rest2 =>
    rtStrstr_spec (string_append_zero htext rest1) (string_append_zero hpat rest2)
  obtain ⟨r, -, hfirst⟩ := hspec [] []
  refine ⟨r, hfirst, fun rest1 rest2 => ?_⟩
  obtain ⟨r', hr, hfirst'⟩ := hspec rest1 rest2
  rw [hr, hfirst.unique hfirst']

/-- The search for `bc` in `abc`. -/
theorem rtStrstr_first_abc : ∃ r, FirstAt [98, 99] [97, 98, 99] r ∧
    ∀ rest1 rest2, rtStrstr ([97, 98, 99] ++ 0 :: rest1) ([98, 99] ++ 0 :: rest2) = some r :=
  rtStrstr_first (by decide) (by decide)

end RtThread
