-- SUMMARY: Instruction lists on a machine that fetches bytes.
import ZigbeeGateway.Lib.ByteMem
import ZigbeeGateway.Lib.Loop
import ZigbeeGateway.Lib.Run

/-!
# Bytecode

The first part is about byte strings in a byte memory: how to write one, and what it means that
one stands at an address. In the second part instructions have a meaning of their own that knows
no positions, and a machine fetches their bytes from a text in a loop. If the machine does one instruction right at any
position, then it does every list of instructions right.
-/

namespace ByteMem

variable {m m' : Nat → UInt8} {a x : Nat} {bs cs : List UInt8}

/-! ## Byte strings -/

/-- Write the bytes of a string from the address `a` on. -/
def writeBytes (m : Nat → UInt8) (a : Nat) : List UInt8 → Nat → UInt8
  | [] => m
  | b :: bs => writeBytes (Function.update m a b) (a + 1) bs

/-- The bytes of a string stand in memory from the address `a` on. -/
def BytesAt (m : Nat → UInt8) (a : Nat) : List UInt8 → Prop
  | [] => True
  | b :: bs => m a = b ∧ BytesAt m (a + 1) bs

/-- The low `n` bytes of a number, the lowest first. -/
def leBytes : Nat → Nat → List UInt8
  | 0, _ => []
  | n + 1, v => UInt8.ofNat v :: leBytes n (v / 256)

@[simp] theorem length_leBytes (n v : Nat) : (leBytes n v).length = n := by
  induction n generalizing v with
  | zero => rfl
  | succ n ih => rw [leBytes, List.length_cons, ih]

theorem writeBytes_append :
    writeBytes m a (bs ++ cs) = writeBytes (writeBytes m a bs) (a + bs.length) cs := by
  induction bs generalizing m a with
  | nil => rfl
  | cons b bs ih =>
    rw [List.cons_append, writeBytes, writeBytes, ih, List.length_cons, Nat.add_right_comm,
      Nat.add_assoc]

/-- A byte outside of the range that is written. -/
theorem writeBytes_of_apart (hx : x < a ∨ a + bs.length ≤ x) : writeBytes m a bs x = m x := by
  induction bs generalizing m a with
  | nil => rfl
  | cons b bs ih =>
    rw [List.length_cons] at hx
    have hxa : x ≠ a := by omega
    rw [writeBytes, ih (by omega), Function.update_of_ne hxa]

theorem store_eq_writeBytes {n v : Nat} : store m a n v = writeBytes m a (leBytes n v) := by
  induction n generalizing m a v with
  | zero => rfl
  | succ n ih => rw [store, leBytes, writeBytes, ih]

theorem bytesAt_append :
    BytesAt m a (bs ++ cs) ↔ BytesAt m a bs ∧ BytesAt m (a + bs.length) cs := by
  induction bs generalizing a with
  | nil => simp [BytesAt]
  | cons b bs ih =>
    rw [List.cons_append, BytesAt, BytesAt, ih, List.length_cons, and_assoc,
      Nat.add_right_comm, Nat.add_assoc a]

/-- Whether a string stands at an address depends on the bytes of its range. -/
theorem BytesAt.congr (h : BytesAt m a bs) (heq : ∀ y, a ≤ y → y < a + bs.length → m' y = m y) :
    BytesAt m' a bs := by
  induction bs generalizing a with
  | nil => trivial
  | cons b bs ih =>
    rw [List.length_cons] at heq
    refine ⟨(heq a (by omega) (by omega)).trans h.1, ih h.2 fun y hy hy' => ?_⟩
    exact heq y (by omega) (by omega)

theorem bytesAt_writeBytes : BytesAt (writeBytes m a bs) a bs := by
  induction bs generalizing m a with
  | nil => trivial
  | cons b bs ih =>
    refine ⟨?_, ih⟩
    rw [writeBytes, writeBytes_of_apart (.inl (by omega)), Function.update_self]

theorem BytesAt.load {n v : Nat} (h : BytesAt m a (leBytes n v)) :
    ByteMem.load m a n = v % 256 ^ n := by
  induction n generalizing a v with
  | zero => simp [ByteMem.load, Nat.mod_one]
  | succ n ih =>
    have hsplit : v % 256 ^ (n + 1) = v % 256 + 256 * (v / 256 % 256 ^ n) := by
      rw [Nat.pow_succ', Nat.mod_mul]
    rw [ByteMem.load, h.1, ih h.2, UInt8.toNat_ofNat', hsplit]

end ByteMem

namespace Bytecode

open ByteMem Loop

/-! ## Instruction lists -/

section Simulation

variable {σ α ι : Type*} {running : σ → Bool} {body : σ → Option σ} {pc : σ → Nat}
  {text : Nat → UInt8} {limit : Nat} {bytes : ι → List UInt8} {exec : α → ι → Option α}
  {R : α → σ → Prop}

/-- If the machine does every single instruction that stands at its program counter, then it does
every list of instructions, with one round for each. -/
theorem simulates
    (hstep : ∀ {i a a' s}, R a s → BytesAt text (pc s) (bytes i) →
      pc s + (bytes i).length ≤ limit → exec a i = some a' →
      running s = true ∧ ∃ s', body s = some s' ∧ R a' s' ∧ pc s' = pc s + (bytes i).length)
    {is : List ι} {a a' : α} {s : σ} (hR : R a s) (htext : BytesAt text (pc s) (is.flatMap bytes))
    (hlimit : pc s + (is.flatMap bytes).length ≤ limit) (hexec : Run.run exec a is = some a') :
    ∃ s', Rounds running body is.length s s' ∧ R a' s' ∧
      pc s' = pc s + (is.flatMap bytes).length := by
  induction is generalizing a s with
  | nil =>
    obtain rfl : a = a' := Option.some.inj hexec
    exact ⟨s, .refl s, hR, rfl⟩
  | cons i is ih =>
    rw [List.flatMap_cons] at htext hlimit
    rw [bytesAt_append] at htext
    rw [List.length_append] at hlimit
    obtain ⟨b, hb, hrest⟩ := Run.run_cons.mp hexec
    obtain ⟨hrun, t, hbody, hRt, hpc⟩ := hstep hR htext.1 (by omega) hb
    obtain ⟨s', hrounds, hR', hpc'⟩ := ih hRt (by rw [hpc]; exact htext.2) (by omega) hrest
    refine ⟨s', .cons hrun hbody hrounds, hR', ?_⟩
    rw [hpc', hpc, List.flatMap_cons, List.length_append, Nat.add_assoc]

end Simulation

end Bytecode
