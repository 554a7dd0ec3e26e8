-- SUMMARY: The FinSH virtual machine.
import ZigbeeGateway.Finsh.Compiler

/-!
# FinSH virtual machine

`finsh_ops.c` and `finsh_vm_run` over the flat byte memory of the compiler. The stack is an array
of 4-byte slots and `finsh_sp` points behind its top. The operations check no bounds, so a pop too
many reads what stands below the stack. An operation has no result where C leaves the outcome open:
a division by zero, a shift count outside of the width of `int`, an opcode without a table entry.

Two fields record how the stack is used. `written` holds the bytes that the run has written, and
`clean` says that no byte of the stack was read before it was written.
-/

namespace RtThread.Finsh

open ByteMem

/-- The memory, `finsh_sp` and `finsh_pc`, with the record of the stack use. -/
structure Vm where
  mem : Nat → UInt8
  sp : Nat
  pc : Nat
  written : Nat → Bool
  clean : Bool

/-- A function that `OP_call` jumps to: its address, its arguments and the memory give its result
and the memory after it. -/
abbrev Calls : Type := Nat → List (BitVec 32) → (Nat → UInt8) → Option (BitVec 32 × (Nat → UInt8))

/-- An operation of the machine. -/
abbrev Exec (α : Type) : Type := StateT Vm Option α

/-! ## Arithmetic -/

/-- The C operators on `int` and `long`, both of 32 bits. The remainder of the least number
by `-1` is 0 on the target, while its quotient does not fit. -/
def BinOp.apply : BinOp → BitVec 32 → BitVec 32 → Option (BitVec 32)
  | .add, a, b => some (a + b)
  | .sub, a, b => some (a - b)
  | .div, a, b => if b = 0 ∨ (a = BitVec.intMin 32 ∧ b = -1) then none else some (a.sdiv b)
  | .mod, a, b => if b = 0 then none else some (a.srem b)
  | .mul, a, b => some (a * b)
  | .and, a, b => some (a &&& b)
  | .or, a, b => some (a ||| b)
  | .xor, a, b => some (a ^^^ b)
  | .shl, a, b => if b.toNat < 32 then some (a <<< b.toNat) else none
  | .shr, a, b => if b.toNat < 32 then some (a.sshiftRight b.toNat) else none

/-- The promotion of a value to `int`: `char` is unsigned on the target, `short` is signed. -/
def Width.promote : Width → Nat → BitVec 32
  | .byte, n => BitVec.ofNat 32 n
  | .word, n => (BitVec.ofNat 16 n).signExtend 32
  | .dword, n => BitVec.ofNat 32 n

/-! ## Memory accesses -/

def Layout.inStack (L : Layout) (a : Nat) : Bool :=
  decide (L.finshVmStack ≤ a ∧ a < L.finshVmStack + 4 * finshStackMax)

/-- The record of written bytes after a write. -/
def markWritten (written : Nat → Bool) (a n x : Nat) : Bool :=
  decide (a ≤ x ∧ x < a + n) || written x

namespace Exec

/-- Read `n` bytes. -/
def read (L : Layout) (a n : Nat) : Exec Nat := do
  let vm ← get
  let fresh := (List.range n).all fun i => !L.inStack (a + i) || vm.written (a + i)
  set { vm with clean := vm.clean && fresh }
  return load vm.mem a n

/-- Write the low `n` bytes of a value. -/
def write (a n v : Nat) : Exec Unit :=
  modify fun vm => { vm with
    mem := store vm.mem a n v
    written := markWritten vm.written a n }

/-- The address of the slot `k` places below `finsh_sp`. -/
def slot (k : Nat) : Exec Nat := do
  return (← get).sp - 4 * k

/-- Move `finsh_sp` up and down by one slot. -/
def incSp : Exec Unit := modify fun vm => { vm with sp := vm.sp + 4 }

def decSp : Exec Unit := modify fun vm => { vm with sp := vm.sp - 4 }

/-- The `n` bytes at `finsh_pc`, which moves behind them. -/
def immediate (L : Layout) (n : Nat) : Exec Nat := do
  let v ← read L (← get).pc n
  modify fun vm => { vm with pc := vm.pc + n }
  return v

end Exec

/-! ## Operations -/

open Exec

section Operations

variable (L : Layout)

/-- `OP_BIN_BYTE`, `OP_BIN_WORD` and `OP_BIN_DWORD`. -/
def opBin (op : BinOp) (w : Width) : Exec Unit := do
  let a ← read L (← slot 2) w.bytes
  let b ← read L (← slot 1) w.bytes
  let r ← op.apply (w.promote a) (w.promote b)
  write (← slot 2) w.bytes r.toNat
  decSp

/-- `OP_bw_byte`, `OP_bw_word` and `OP_bw_dword`. -/
def opBw (w : Width) : Exec Unit := do
  let a ← read L (← slot 1) w.bytes
  write (← slot 1) w.bytes (~~~(w.promote a)).toNat

/-- `OP_ld_byte`, `OP_ld_word` and `OP_ld_dword`. -/
def opLd (w : Width) : Exec Unit := do
  let v ← immediate L w.bytes
  write (← slot 0) w.bytes v
  incSp

/-- `OP_ld_value_byte`, `OP_ld_value_word` and `OP_ld_value_dword`. -/
def opLdValue (w : Width) : Exec Unit := do
  let a ← immediate L 4
  let v ← read L a w.bytes
  write (← slot 0) w.bytes v
  incSp

/-- `OP_ld_value_byte_stack`, `OP_ld_value_word_stack` and `OP_ld_value_dword_stack`. -/
def opLdValueStack (w : Width) : Exec Unit := do
  let a ← read L (← slot 1) 4
  let v ← read L a w.bytes
  write (← slot 1) w.bytes v

/-- `OP_st_byte`, `OP_st_word` and `OP_st_dword`. The address stays on the stack. -/
def opSt (w : Width) : Exec Unit := do
  let a ← read L (← slot 2) 4
  let v ← read L (← slot 1) w.bytes
  write a w.bytes v
  decSp

/-- The arguments of a call in the order of the call. `finsh_sp` points to the last one. -/
def popArgs : Nat → Exec (List (BitVec 32))
  | 0 => return []
  | n + 1 => do
    let v ← read L (← slot 0) 4
    decSp
    return (← popArgs n) ++ [BitVec.ofNat 32 v]

/-- `OP_call`. There is room for 16 arguments, and a call without arguments passes one 0. -/
def opCall (calls : Calls) : Exec Unit := do
  let parameters ← immediate L 1
  decSp
  let args ← popArgs L parameters
  let f ← read L (← slot 0) 4
  if 16 < parameters then failure
  let (r, mem) ← calls f (if parameters = 0 then [0] else args) (← get).mem
  modify fun vm => { vm with mem }
  write (← slot 0) 4 r.toNat
  incSp

/-- `op_table`. -/
def opTable (calls : Calls) (op : Nat) : Exec Unit :=
  match op with
  | 0x00 => pure ()
  | 0x01 => opBin L .add .byte
  | 0x02 => opBin L .add .word
  | 0x03 => opBin L .add .dword
  | 0x04 => opBin L .sub .byte
  | 0x05 => opBin L .sub .word
  | 0x06 => opBin L .sub .dword
  | 0x07 => opBin L .div .byte
  | 0x08 => opBin L .div .word
  | 0x09 => opBin L .div .dword
  | 0x0A => opBin L .mod .byte
  | 0x0B => opBin L .mod .word
  | 0x0C => opBin L .mod .dword
  | 0x0D => opBin L .mul .byte
  | 0x0E => opBin L .mul .word
  | 0x0F => opBin L .mul .dword
  | 0x10 => opBin L .and .byte
  | 0x11 => opBin L .and .word
  | 0x12 => opBin L .and .dword
  | 0x13 => opBin L .or .byte
  | 0x14 => opBin L .or .word
  | 0x15 => opBin L .or .dword
  | 0x16 => opBin L .xor .byte
  | 0x17 => opBin L .xor .word
  | 0x18 => opBin L .xor .dword
  | 0x19 => opBw L .byte
  | 0x1A => opBw L .word
  | 0x1B => opBw L .dword
  | 0x1C => opBin L .shl .byte
  | 0x1D => opBin L .shl .word
  | 0x1E => opBin L .shl .dword
  | 0x1F => opBin L .shr .byte
  | 0x20 => opBin L .shr .word
  | 0x21 => opBin L .shr .dword
  | 0x22 => opLd L .byte
  | 0x23 => opLd L .word
  | 0x24 => opLd L .dword
  | 0x25 => opLdValue L .byte
  | 0x26 => opLdValue L .word
  | 0x27 => opLdValue L .dword
  | 0x28 => opSt L .byte
  | 0x29 => opSt L .word
  | 0x2A => opSt L .dword
  | 0x2B => decSp
  | 0x2C => opCall L calls
  | 0x2D => opLdValueStack L .byte
  | 0x2E => opLdValueStack L .word
  | 0x2F => opLdValueStack L .dword
  | _ => failure

/-! ## Run -/

/-- The condition of the loop: `finsh_pc` is in the text segment. -/
def inText (vm : Vm) : Bool :=
  decide (L.textSegment ≤ vm.pc ∧ vm.pc < L.textSegment + finshTextMax)

/-- One round of the loop. -/
def vmStep (calls : Calls) (vm : Vm) : Option Vm := do
  let (op, vm) ← (immediate L 1).run vm
  let ((), vm) ← (opTable L calls op).run vm
  return vm

/-- The machine at the start of `finsh_vm_run`. -/
def vmStart (mem : Nat → UInt8) : Vm where
  mem := mem
  sp := L.finshVmStack
  pc := L.textSegment
  written := fun _ => false
  clean := true

/-- `finsh_vm_run`. Each round moves `finsh_pc` on, so there are at most `FINSH_TEXT_MAX` of
them. -/
def finshVmRun (calls : Calls) (mem : Nat → UInt8) : Option Vm :=
  Loop.loop (inText L) (vmStep L calls) finshTextMax (vmStart L mem)

end Operations

end RtThread.Finsh
