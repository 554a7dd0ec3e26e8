-- SUMMARY: Byte memory: little-endian loads and stores of a few bytes.
import Mathlib.Algebra.Group.Nat.Defs
import Mathlib.Tactic.Common

/-!
# Byte memory

A memory maps addresses to bytes. `load m a n` reads `n` bytes from the address `a` on as a
little-endian number, and `store m a n v` writes the low `n` bytes of `v`. A store changes the
bytes of its own range only, and a load depends on the bytes of its own range only.
-/

namespace ByteMem

open Function

variable {m m' : Nat → UInt8} {a b x : Nat}

def load (m : Nat → UInt8) (a : Nat) : Nat → Nat
  | 0 => 0
  | n + 1 => (m a).toNat + 256 * load m (a + 1) n

def store (m : Nat → UInt8) (a : Nat) : Nat → Nat → Nat → UInt8
  | 0, _ => m
  | n + 1, v => store (update m a (UInt8.ofNat v)) (a + 1) n (v / 256)

/-- A byte outside of the range of a store. -/
theorem store_of_apart {n v : Nat} (hx : x < a ∨ a + n ≤ x) : store m a n v x = m x := by
  induction n generalizing m a v with
  | zero => rfl
  | succ n ih =>
    have hxa : x ≠ a := by omega
    rw [store, ih (by omega), update_of_ne hxa]

/-- A load reads the bytes of its range. -/
theorem load_congr {n : Nat} (h : ∀ i, i < n → m' (a + i) = m (a + i)) :
    load m' a n = load m a n := by
  induction n generalizing a with
  | zero => rfl
  | succ n ih =>
    have hrest : load m' (a + 1) n = load m (a + 1) n := by
      refine ih fun i hi => ?_
      rw [Nat.add_assoc, Nat.add_comm 1 i]
      exact h (i + 1) (by omega)
    rw [load, load, hrest, show m' a = m a from h 0 (by omega)]

theorem load_lt (m : Nat → UInt8) (a n : Nat) : load m a n < 256 ^ n := by
  induction n generalizing a with
  | zero => exact Nat.one_pos
  | succ n ih =>
    have hbyte : (m a).toNat < 256 := (m a).toNat_lt
    have hrest := ih (a + 1)
    rw [load, Nat.pow_succ]
    omega

theorem load_store_of_apart {n k v : Nat} (h : a + k ≤ b ∨ b + n ≤ a) :
    load (store m b n v) a k = load m a k :=
  load_congr fun _ _ => store_of_apart (by omega)

theorem load_store_same {n v : Nat} : load (store m a n v) a n = v % 256 ^ n := by
  induction n generalizing m a v with
  | zero => simp [load, Nat.mod_one]
  | succ n ih =>
    have hfirst : store (update m a (UInt8.ofNat v)) (a + 1) n (v / 256) a =
        UInt8.ofNat v := by
      rw [store_of_apart (.inl (by omega)), update_self]
    have hsplit : v % 256 ^ (n + 1) = v % 256 + 256 * (v / 256 % 256 ^ n) := by
      rw [Nat.pow_succ', Nat.mod_mul]
    rw [load, store, hfirst, ih, UInt8.toNat_ofNat', hsplit]

/-- The store of a number that was loaded copies its bytes. -/
theorem store_load (m m' : Nat → UInt8) (a b n x : Nat) :
    store m a n (load m' b n) x = if a ≤ x ∧ x < a + n then m' (b + (x - a)) else m x := by
  split
  next hin =>
    obtain ⟨i, rfl⟩ := Nat.exists_eq_add_of_le hin.1
    have hi : i < n := by omega
    rw [Nat.add_sub_cancel_left]
    clear hin
    induction n generalizing m a b i with
    | zero => omega
    | succ n ih =>
      have hfirst : UInt8.ofNat (load m' b (n + 1)) = m' b := by
        apply UInt8.toNat_inj.mp
        have hbyte : (m' b).toNat < 256 := (m' b).toNat_lt
        rw [load, UInt8.toNat_ofNat']
        omega
      have hrest : load m' b (n + 1) / 256 = load m' (b + 1) n := by
        have hbyte : (m' b).toNat < 256 := (m' b).toNat_lt
        rw [load]
        omega
      rw [store, hfirst, hrest]
      cases i with
      | zero =>
        rw [store_of_apart (.inl (by omega))]
        exact update_self ..
      | succ i =>
        have hshift := ih (update m a (m' b)) (a + 1) (b + 1) i (by omega)
        rwa [Nat.add_assoc a, Nat.add_comm 1 i, Nat.add_assoc b, Nat.add_comm 1 i] at hshift
  next hout => exact store_of_apart (by omega)

/-- Copy `n` bytes. -/
def copy (m : Nat → UInt8) (dst src : Nat) : Nat → Nat → UInt8
  | 0 => m
  | n + 1 => update (copy m dst src n) (dst + n) (copy m dst src n (src + n))

theorem copy_of_apart {dst src n : Nat} (hx : x < dst ∨ dst + n ≤ x) : copy m dst src n x = m x := by
  induction n with
  | zero => rfl
  | succ n ih =>
    have hne : x ≠ dst + n := by omega
    rw [copy, update_of_ne hne, ih (by omega)]

/-- What a copy writes, when it reads no byte that it has written. -/
theorem copy_apply {dst src n : Nat} (hahead : dst ≤ src ∨ src + n ≤ dst) (x : Nat) :
    copy m dst src n x = if dst ≤ x ∧ x < dst + n then m (src + (x - dst)) else m x := by
  induction n with
  | zero => rw [if_neg (by omega), copy]
  | succ n ih =>
    rw [copy]
    by_cases hx : x = dst + n
    · subst hx
      rw [update_self, copy_of_apart (by omega), if_pos (by omega), Nat.add_sub_cancel_left]
    · rw [update_of_ne hx, ih (by omega)]
      exact if_congr (by omega) rfl rfl

/-- Copy `n` bytes of the memory `m'` to `m`. -/
def transfer (m' : Nat → UInt8) (src : Nat) (m : Nat → UInt8) (dst : Nat) : Nat → Nat → UInt8
  | 0 => m
  | n + 1 => update (transfer m' src m dst n) (dst + n) (m' (src + n))

end ByteMem
