-- SUMMARY: rt_memset, rt_memcpy and rt_memmove as byte loops.
import ZigbeeGateway.Lib.ByteMem

/-!
# Setting and copying memory

`rt_memset` and `rt_memcpy` work in blocks of four words when the addresses are aligned, then in words,
and then in bytes. The loops have one shape: as long as a block of `width` bytes is left, do the block.
What the finished part of the range holds is an invariant that every block extends (`Fill.run_spec`).
`rt_memmove` copies bytes, from the end on when the source is overwritten from its start.
-/

namespace RtThread

open ByteMem Function

variable {m : Nat → UInt8} {width n s dst src : Nat}

/-- The state of a loop: `done` bytes are written and `count` bytes are left. -/
structure Fill where
  mem : Nat → UInt8
  done : Nat
  count : Nat

namespace Fill

/-- `while (count >= width)` with the body `body`, for at most `fuel` blocks. -/
def loop (width : Nat) (body : (Nat → UInt8) → Nat → Nat → UInt8) : Nat → Fill → Fill
  | 0, f => f
  | fuel + 1, f =>
    if width ≤ f.count then
      loop width body fuel ⟨body f.mem f.done, f.done + width, f.count - width⟩
    else
      f

/-- The whole loop. There are not more blocks than bytes. -/
def run (f : Fill) (width : Nat) (body : (Nat → UInt8) → Nat → Nat → UInt8) : Fill :=
  loop width body f.count f

variable {body : (Nat → UInt8) → Nat → Nat → UInt8} {Done : (Nat → UInt8) → Nat → Prop} {f : Fill}

/-- What every block extends holds of all that a loop has written. -/
theorem run_spec (hwidth : 0 < width) (hn : f.done + f.count = n) (hdone : Done f.mem f.done)
    (hbody : ∀ m k, k + width ≤ n → Done m k → Done (body m k) (k + width)) :
    Done (f.run width body).mem (f.run width body).done ∧
      (f.run width body).done + (f.run width body).count = n ∧ (f.run width body).count < width := by
  have hgen : ∀ fuel (f : Fill), f.count ≤ fuel → f.done + f.count = n → Done f.mem f.done →
      Done (loop width body fuel f).mem (loop width body fuel f).done ∧
        (loop width body fuel f).done + (loop width body fuel f).count = n ∧
        (loop width body fuel f).count < width := by
    intro fuel
    induction fuel with
    | zero =>
      intro f hfuel hn hdone
      exact ⟨hdone, hn, by rw [loop]; omega⟩
    | succ fuel ih =>
      intro f hfuel hn hdone
      rw [loop]
      split
      next hle =>
        refine ih _ ?_ ?_ (hbody f.mem f.done (by omega) hdone)
        · simp only
          omega
        · simp only
          omega
      next hlt => exact ⟨hdone, hn, Nat.lt_of_not_le hlt⟩
  exact hgen f.count f (Nat.le_refl _) hn hdone

/-- Four words in a row. -/
def four (word : (Nat → UInt8) → Nat → Nat → UInt8) (m : Nat → UInt8) (k : Nat) : Nat → UInt8 :=
  word (word (word (word m k) (k + 4)) (k + 8)) (k + 12)

theorem four_spec {word : (Nat → UInt8) → Nat → Nat → UInt8}
    (hword : ∀ m k, k + 4 ≤ n → Done m k → Done (word m k) (k + 4)) (m : Nat → UInt8) (k : Nat)
    (hk : k + 16 ≤ n) (hdone : Done m k) : Done (four word m k) (k + 16) := by
  have h1 := hword m k (by omega) hdone
  have h2 := hword _ _ (by omega) h1
  have h3 := hword _ _ (by omega) h2
  exact hword _ _ (by omega) h3

/-- The loops over blocks and words when `words` holds, and then the loop over bytes. -/
def all (words : Prop) [Decidable words] (word byte : (Nat → UInt8) → Nat → Nat → UInt8) (f : Fill) :
    Fill :=
  let f := if words then (f.run 16 (four word)).run 4 word else f
  f.run 1 byte

variable (Done) in
/-- All bytes are written at the end. -/
theorem all_spec {words : Prop} [Decidable words] {word byte : (Nat → UInt8) → Nat → Nat → UInt8}
    (hn : f.done + f.count = n) (hdone : Done f.mem f.done)
    (hword : ∀ m k, k + 4 ≤ n → Done m k → Done (word m k) (k + 4))
    (hbyte : ∀ m k, k + 1 ≤ n → Done m k → Done (byte m k) (k + 1)) :
    Done (all words word byte f).mem n := by
  have hend : ∀ f : Fill, f.done + f.count = n → Done f.mem f.done → Done (f.run 1 byte).mem n := by
    intro f hn hdone
    obtain ⟨hall, hsum, hlt⟩ := run_spec (by decide) hn hdone hbyte
    have hlen : (f.run 1 byte).done = n := by omega
    rwa [hlen] at hall
  unfold all
  split
  · obtain ⟨hdone1, hn1, -⟩ := run_spec (by decide) hn hdone (four_spec hword)
    obtain ⟨hdone2, hn2, -⟩ := run_spec (by decide) hn1 hdone1 hword
    exact hend _ hn2 hdone2
  · exact hend f hn hdone

end Fill

/-! ## rt_memset -/

/-- The word with the byte `d` in all places. -/
def memsetBuffer (d : Nat) : Nat :=
  let buffer := (d <<< 8) ||| d
  buffer ||| (buffer <<< 16)

/-- `rt_memset`. -/
def rtMemset (m : Nat → UInt8) (s c count : Nat) : Nat → UInt8 :=
  let d := c &&& 0xff
  (Fill.all (¬ count < 4 ∧ s &&& 3 = 0) (fun m k => store m (s + k) 4 (memsetBuffer d))
    (fun m k => update m (s + k) (UInt8.ofNat d)) ⟨m, 0, count⟩).mem

theorem memsetBuffer_eq {d : Nat} (hd : d < 256) :
    memsetBuffer d = load (fun _ => UInt8.ofNat d) 0 4 := by
  have hall : ∀ d, d < 256 → memsetBuffer d = load (fun _ => UInt8.ofNat d) 0 4 := by decide +kernel
  exact hall d hd

/-- `rt_memset` sets the bytes of its range, and no others. -/
theorem rtMemset_apply (m : Nat → UInt8) (s c count x : Nat) :
    rtMemset m s c count x =
      if s ≤ x ∧ x < s + count then UInt8.ofNat (c &&& 0xff) else m x := by
  have hd : c &&& 0xff < 256 := Nat.and_lt_two_pow c (by decide : 0xff < 2 ^ 8)
  refine Fill.all_spec
    (fun m' k => ∀ x, m' x = if s ≤ x ∧ x < s + k then UInt8.ofNat (c &&& 0xff) else m x)
    (Nat.zero_add count) ?_ ?_ ?_ x
  · exact fun x => (if_neg (by simp only; omega)).symm
  · intro m' k _ hdone x
    rw [memsetBuffer_eq hd, store_load, hdone x]
    split
    · rw [if_pos (by omega)]
    · exact if_congr (by omega) rfl rfl
  · intro m' k _ hdone x
    by_cases hx : x = s + k
    · rw [hx, update_self, if_pos (by omega)]
    · rw [update_of_ne hx, hdone x]
      exact if_congr (by omega) rfl rfl

/-! ## rt_memcpy -/

/-- `rt_memcpy`. The comparisons of `len` with a `sizeof` are unsigned. -/
def rtMemcpy (m : Nat → UInt8) (dst src count : Nat) : Nat → UInt8 :=
  (Fill.all (¬ count < 16 ∧ (src &&& 3) ||| (dst &&& 3) = 0)
    (fun m k => store m (dst + k) 4 (load m (src + k) 4))
    (fun m k => update m (dst + k) (m (src + k))) ⟨m, 0, count⟩).mem

/-- A copy to a range apart from its source is the copy byte by byte. -/
theorem rtMemcpy_eq_copy (hapart : dst + n ≤ src ∨ src + n ≤ dst) :
    rtMemcpy m dst src n = copy m dst src n := by
  funext x
  rw [copy_apply (by omega)]
  refine Fill.all_spec
    (fun m' k => ∀ x, m' x = if dst ≤ x ∧ x < dst + k then m (src + (x - dst)) else m x)
    (Nat.zero_add n) ?_ ?_ ?_ x
  · exact fun x => (if_neg (by simp only; omega)).symm
  · intro m' k hk hdone x
    rw [store_load, hdone x]
    split
    next hin =>
      rw [hdone, if_neg (by omega), if_pos (by omega)]
      congr 1
      omega
    · exact if_congr (by omega) rfl rfl
  · intro m' k hk hdone x
    by_cases hx : x = dst + k
    · rw [hx, update_self, hdone, if_neg (by omega), if_pos (by omega), Nat.add_sub_cancel_left]
    · rw [update_of_ne hx, hdone x]
      exact if_congr (by omega) rfl rfl

/-! ## rt_memmove -/

/-- The loop `while (n--) *(--tmp) = *(--s)`, from the ends of the two areas. -/
def copyDown (m : Nat → UInt8) (dst src : Nat) : Nat → Nat → UInt8
  | 0 => m
  | n + 1 => copyDown (update m (dst + n) (m (src + n))) dst src n

/-- `rt_memmove`. -/
def rtMemmove (m : Nat → UInt8) (dest src n : Nat) : Nat → UInt8 :=
  if src < dest ∧ dest < src + n then copyDown m dest src n else copy m dest src n

theorem copyDown_apply (hle : src ≤ dst) (x : Nat) :
    copyDown m dst src n x = if dst ≤ x ∧ x < dst + n then m (src + (x - dst)) else m x := by
  induction n generalizing m with
  | zero => rw [if_neg (by omega), copyDown]
  | succ n ih =>
    rw [copyDown, ih]
    by_cases hx : x = dst + n
    · subst hx
      rw [if_neg (by omega), update_self, if_pos (by omega), Nat.add_sub_cancel_left]
    · rw [update_of_ne hx]
      split
      next hin => rw [update_of_ne (by omega), if_pos (by omega)]
      next hout => rw [if_neg (by omega)]

/-- `rt_memmove` copies the old contents of the source for every overlap. -/
theorem rtMemmove_apply (m : Nat → UInt8) (dst src n x : Nat) :
    rtMemmove m dst src n x = if dst ≤ x ∧ x < dst + n then m (src + (x - dst)) else m x := by
  unfold rtMemmove
  split
  next hover => exact copyDown_apply (Nat.le_of_lt hover.1) x
  next hover => exact copy_apply (by omega) x

/-- What the three functions do to a memory: `rt_memcpy` on areas that do not overlap is the copy byte
by byte, and none of them writes outside of its destination. -/
theorem memory_routines_bytewise (m : Nat → UInt8) (dst src c count : Nat) :
    (dst + count ≤ src ∨ src + count ≤ dst → rtMemcpy m dst src count = copy m dst src count) ∧
      (∀ x, rtMemset m dst c count x =
        if dst ≤ x ∧ x < dst + count then UInt8.ofNat (c &&& 0xff) else m x) ∧
      (∀ i < count, rtMemmove m dst src count (dst + i) = m (src + i)) ∧
      ∀ x, x < dst ∨ dst + count ≤ x → rtMemset m dst c count x = m x ∧
        rtMemmove m dst src count x = m x ∧ copy m dst src count x = m x := by
  refine ⟨rtMemcpy_eq_copy, rtMemset_apply m dst c count, fun i hi => ?_, fun x hx => ?_⟩
  · rw [rtMemmove_apply, if_pos (by omega), Nat.add_sub_cancel_left]
  · rw [rtMemset_apply, rtMemmove_apply, copy_of_apart hx, if_neg (by omega), if_neg (by omega)]
    exact ⟨rfl, rfl, rfl⟩

end RtThread
