-- SUMMARY: Compiled integer statements on the virtual machine.
import ZigbeeGateway.Finsh.Expr

/-!
# Integer statements on the virtual machine

The machine does what the stack code says. `Rep` relates a configuration of the stack code to the
machine: the slots of the stack hold the entries, the values of the variables are in the variable
table, and all other memory is as the compiler left it. A push takes 5 bytes of code, so code that
fits into the text segment pushes at most 25 entries.
-/

namespace RtThread.Finsh

open ByteMem Run Bytecode Loop Function

/-! ## Addresses -/

section Addresses

variable (L : Layout)

def Layout.slotAddr (k : Nat) : Nat := L.finshVmStack + 4 * k

/-- The bytes of the value of a shell variable. -/
def Layout.InValue (i : Fin finshVariableMax) (a : Nat) : Prop :=
  L.valueAddr i ≤ a ∧ a < L.valueAddr i + 4

def Layout.InText (a : Nat) : Prop :=
  L.textSegment ≤ a ∧ a < L.textSegment + finshTextMax

theorem Layout.valueAddr_mem (i : Fin finshVariableMax) :
    L.globalVariable ≤ L.valueAddr i ∧ L.valueAddr i + 4 ≤ L.globalVariable + 192 := by
  have hi : (i : Nat) < 8 := i.isLt
  simp only [Layout.valueAddr, finshVarSize, finshVarValue]
  omega

theorem Layout.valueAddr_apart {i j : Fin finshVariableMax} (h : i ≠ j) :
    L.valueAddr i + 4 ≤ L.valueAddr j ∨ L.valueAddr j + 4 ≤ L.valueAddr i := by
  simp only [Layout.valueAddr, finshVarSize, finshVarValue]
  omega

/-- The objects are apart, in bytes. -/
theorem Layout.apart :
    (L.textSegment + 128 ≤ L.finshVmStack ∨ L.finshVmStack + 256 ≤ L.textSegment) ∧
    (L.textSegment + 128 ≤ L.globalVariable ∨ L.globalVariable + 192 ≤ L.textSegment) ∧
    (L.finshVmStack + 256 ≤ L.globalVariable ∨ L.globalVariable + 192 ≤ L.finshVmStack) :=
  ⟨L.text_stack, L.text_variable, L.stack_variable⟩

theorem Layout.inStack_eq_false {a : Nat} :
    L.inStack a = false ↔ a < L.finshVmStack ∨ L.finshVmStack + 256 ≤ a := by
  rw [Layout.inStack, decide_eq_false_iff_not, finshStackMax]
  omega

theorem Layout.valueAddr_lt (i : Fin finshVariableMax) : L.valueAddr i < 2 ^ 32 := by
  have := L.valueAddr_mem i
  have : L.globalVariable + 192 ≤ 2 ^ 32 := L.variable_lt
  omega

end Addresses

variable {L : Layout}

/-! ## Representation -/

/-- What a slot holds for an entry. -/
def Entry.word (L : Layout) : Entry → BitVec 32
  | .val v => v
  | .addr i => BitVec.ofNat 32 (L.valueAddr i)

/-- The slots from the bottom of the stack on hold the entries, and the run wrote all of them. -/
def Slots (L : Layout) (mem : Nat → UInt8) (written : Nat → Bool) : List Entry → Prop
  | [] => True
  | e :: s => load mem (L.slotAddr s.length) 4 = (e.word L).toNat ∧
      (∀ x, L.slotAddr s.length ≤ x → x < L.slotAddr s.length + 4 → written x = true) ∧
      Slots L mem written s

structure Holds (L : Layout) (m : Nat → UInt8) (s : List Entry) (env : Env)
    (mem : Nat → UInt8) (written : Nat → Bool) : Prop where
  slots : Slots L mem written s
  vars : ∀ i, load mem (L.valueAddr i) 4 = (env i).toNat
  frame : ∀ a, L.inStack a = false → (∀ i, ¬ L.InValue i a) → mem a = m a

/-- The machine represents a configuration. `m` is the memory before the run. -/
structure Rep (L : Layout) (m : Nat → UInt8) (c : Config) (vm : Vm) : Prop where
  sp : vm.sp = L.slotAddr c.stack.length
  depth : L.textSegment + 5 * c.stack.length ≤ vm.pc
  holds : Holds L m c.stack c.env vm.mem vm.written
  clean : vm.clean = true

variable {m mem mem' : Nat → UInt8} {written written' : Nat → Bool} {s : List Entry} {env : Env}

variable {a : Nat} {e : Entry} {i : Fin finshVariableMax} {v : BitVec 32}

theorem markWritten_of_written {n x : Nat} (h : written x = true) :
    markWritten written a n x = true := by
  simp [markWritten, h]

theorem markWritten_of_mem {n x : Nat} (h : a ≤ x) (h' : x < a + n) :
    markWritten written a n x = true := by
  simp [markWritten, h, h']

theorem Slots.congr (h : Slots L mem written s)
    (hmem : ∀ x, L.finshVmStack ≤ x → x < L.slotAddr s.length → mem' x = mem x)
    (hwritten : ∀ x, written x = true → written' x = true) : Slots L mem' written' s := by
  induction s with
  | nil => trivial
  | cons e s ih =>
    obtain ⟨hload, hw, hrest⟩ := h
    simp only [Layout.slotAddr, List.length_cons] at hmem hload hw ⊢
    refine ⟨?_, fun x hx hx' => hwritten x (hw x hx hx'), ih hrest fun x hx hx' => ?_⟩
    · rw [← hload]
      exact load_congr fun i _ => hmem _ (by simp only [Layout.slotAddr]; omega)
        (by simp only [Layout.slotAddr]; omega)
    · simp only [Layout.slotAddr] at hx'
      exact hmem x hx (by omega)

theorem Holds.tail (h : Holds L m (e :: s) env mem written) : Holds L m s env mem written :=
  ⟨h.slots.2.2, h.vars, h.frame⟩

theorem Holds.drop {top : List Entry} (h : Holds L m (top ++ s) env mem written) :
    Holds L m s env mem written := by
  induction top with
  | nil => exact h
  | cons e top ih => exact ih h.tail

/-- Writing the slot above the stack. -/
theorem Holds.push (h : Holds L m s env mem written) (hlen : s.length < 64) (e : Entry) :
    Holds L m (e :: s) env (store mem (L.slotAddr s.length) 4 (e.word L).toNat)
      (markWritten written (L.slotAddr s.length) 4) := by
  have hsep := L.apart
  refine ⟨⟨?_, fun x hx hx' => markWritten_of_mem hx hx', ?_⟩, fun i => ?_, fun a ha hv => ?_⟩
  · rw [load_store_same]
    exact Nat.mod_eq_of_lt (e.word L).isLt
  · refine h.slots.congr (fun x _ hx' => store_of_apart (.inl hx')) fun x => markWritten_of_written
  · have hi := L.valueAddr_mem i
    rw [load_store_of_apart (by simp only [Layout.slotAddr]; omega), h.vars]
  · have ha' := L.inStack_eq_false.mp ha
    rw [store_of_apart (by simp only [Layout.slotAddr]; omega), h.frame a ha hv]

/-- Writing the value of a variable. -/
theorem Holds.assign (h : Holds L m s env mem written) (hlen : s.length ≤ 64)
    (i : Fin finshVariableMax) (v : BitVec 32) :
    Holds L m s (update env i v) (store mem (L.valueAddr i) 4 v.toNat)
      (markWritten written (L.valueAddr i) 4) := by
  have hsep := L.apart
  have hi := L.valueAddr_mem i
  refine ⟨?_, fun j => ?_, fun a ha hv => ?_⟩
  · refine h.slots.congr (fun x hx hx' => store_of_apart ?_) fun x => markWritten_of_written
    simp only [Layout.slotAddr] at hx'
    omega
  · by_cases hij : j = i
    · subst hij
      rw [load_store_same, update_self]
      exact Nat.mod_eq_of_lt v.isLt
    · rw [load_store_of_apart (L.valueAddr_apart hij), update_of_ne hij, h.vars]
  · have hvi := hv i
    simp only [Layout.InValue] at hvi
    rw [store_of_apart (by omega), h.frame a ha hv]

/-! ## Operations -/

/-- No byte of the range is a byte of the stack that the run has not written. -/
def Vm.Fresh (L : Layout) (vm : Vm) (a n : Nat) : Prop :=
  ∀ x, a ≤ x → x < a + n → L.inStack x = false ∨ vm.written x = true

variable {vm : Vm}

theorem run_read {n : Nat} (h : vm.Fresh L a n) :
    (Exec.read L a n).run vm = some (load vm.mem a n, vm) := by
  have hfresh : ((List.range n).all fun i => !L.inStack (a + i) || vm.written (a + i)) = true := by
    simp only [List.all_eq_true, List.mem_range, Bool.or_eq_true, Bool.not_eq_true']
    exact fun i hi => h (a + i) (by omega) (by omega)
  simp [Exec.read, hfresh]

theorem run_immediate {n : Nat} (h : vm.Fresh L vm.pc n) :
    (Exec.immediate L n).run vm = some (load vm.mem vm.pc n, { vm with pc := vm.pc + n }) := by
  simp [Exec.immediate, run_read h]

/-- The machine after a push. -/
def Vm.push (vm : Vm) (v : Nat) : Vm :=
  { vm with
    mem := store vm.mem vm.sp 4 v
    written := markWritten vm.written vm.sp 4
    sp := vm.sp + 4 }

theorem run_opLd (h : vm.Fresh L vm.pc 4) :
    (opLd L .dword).run vm =
      some ((), Vm.push { vm with pc := vm.pc + 4 } (load vm.mem vm.pc 4)) := by
  simp [opLd, Width.bytes, run_immediate h, Exec.slot, Exec.write, Exec.incSp, Vm.push]

theorem run_opLdValue (h : vm.Fresh L vm.pc 4) (ha : load vm.mem vm.pc 4 = a)
    (h' : vm.Fresh L a 4) :
    (opLdValue L .dword).run vm =
      some ((), Vm.push { vm with pc := vm.pc + 4 } (load vm.mem a 4)) := by
  have hread : (Exec.read L a 4).run { vm with pc := vm.pc + 4 } = some (load vm.mem a 4, _) :=
    run_read h'
  simp [opLdValue, Width.bytes, run_immediate h, ha, hread, Exec.slot, Exec.write, Exec.incSp,
    Vm.push]

theorem run_opBin {op : BinOp} {r : BitVec 32} (h : vm.Fresh L (vm.sp - 8) 8) (hsp : 8 ≤ vm.sp)
    (hr : op.apply (.ofNat 32 (load vm.mem (vm.sp - 8) 4))
      (.ofNat 32 (load vm.mem (vm.sp - 4) 4)) = some r) :
    (opBin L op .dword).run vm = some ((), Vm.push { vm with sp := vm.sp - 8 } r.toNat) := by
  have h2 : (Exec.read L (vm.sp - 8) 4).run vm = _ := run_read fun x hx _ => h x hx (by omega)
  have h1 : (Exec.read L (vm.sp - 4) 4).run vm = _ :=
    run_read fun x hx _ => h x (by omega) (by omega)
  simp [opBin, Width.bytes, Width.promote, Exec.slot, h2, h1, hr, Exec.write, Exec.decSp, Vm.push]
  omega

theorem run_opBw (h : vm.Fresh L (vm.sp - 4) 4) (hsp : 4 ≤ vm.sp) :
    (opBw L .dword).run vm = some ((), Vm.push { vm with sp := vm.sp - 4 }
      (~~~(BitVec.ofNat 32 (load vm.mem (vm.sp - 4) 4))).toNat) := by
  simp [opBw, Width.bytes, Width.promote, Exec.slot, run_read h, Exec.write, Vm.push,
    Nat.sub_add_cancel hsp]

theorem run_opLdValueStack (h : vm.Fresh L (vm.sp - 4) 4) (hsp : 4 ≤ vm.sp)
    (ha : load vm.mem (vm.sp - 4) 4 = a) (h' : vm.Fresh L a 4) :
    (opLdValueStack L .dword).run vm =
      some ((), Vm.push { vm with sp := vm.sp - 4 } (load vm.mem a 4)) := by
  simp [opLdValueStack, Width.bytes, Exec.slot, run_read h, ha, run_read h', Exec.write, Vm.push,
    Nat.sub_add_cancel hsp]

theorem run_opSt (h : vm.Fresh L (vm.sp - 8) 8) (hsp : 8 ≤ vm.sp)
    (ha : load vm.mem (vm.sp - 8) 4 = a) :
    (opSt L .dword).run vm = some ((), { vm with
      mem := store vm.mem a 4 (load vm.mem (vm.sp - 4) 4)
      written := markWritten vm.written a 4
      sp := vm.sp - 4 }) := by
  have h2 : (Exec.read L (vm.sp - 8) 4).run vm = _ := run_read fun x hx _ => h x hx (by omega)
  have h1 : (Exec.read L (vm.sp - 4) 4).run vm = _ :=
    run_read fun x hx _ => h x (by omega) (by omega)
  simp [opSt, Width.bytes, Exec.slot, h2, h1, ha, Exec.write, Exec.decSp]

/-! ## One instruction -/

/-- The slots of the two top entries. -/
theorem Slots.fresh {e' : Entry} (h : Slots L vm.mem vm.written (e :: e' :: s))
    (hsp : vm.sp = L.slotAddr (s.length + 2)) : vm.Fresh L (vm.sp - 8) 8 := by
  intro x hx hx'
  obtain ⟨-, hw, -, hw', -⟩ := h
  simp only [hsp, Layout.slotAddr, List.length_cons] at hx hx' hw hw'
  by_cases htop : x < L.finshVmStack + 4 * (s.length + 1)
  · exact .inr (hw' x (by omega) (by omega))
  · exact .inr (hw x (by omega) (by omega))

theorem Slots.fresh_top (h : Slots L vm.mem vm.written (e :: s))
    (hsp : vm.sp = L.slotAddr (s.length + 1)) : vm.Fresh L (vm.sp - 4) 4 := by
  intro x hx hx'
  simp only [hsp, Layout.slotAddr] at hx hx'
  exact .inr (h.2.1 x (by simp only [Layout.slotAddr]; omega) (by simp only [Layout.slotAddr]; omega))

theorem fresh_value (L : Layout) (vm : Vm) (i : Fin finshVariableMax) :
    vm.Fresh L (L.valueAddr i) 4 := by
  intro x hx hx'
  have hi := L.valueAddr_mem i
  have hsep := L.apart
  exact .inl (L.inStack_eq_false.mpr (by omega))

theorem fresh_text {n : Nat} (ha : L.textSegment ≤ a) (hn : a + n ≤ L.textSegment + 128) :
    vm.Fresh L a n := by
  intro x hx hx'
  have hsep := L.apart
  exact .inl (L.inStack_eq_false.mpr (by omega))

/-- The run does not change the text segment. -/
theorem Holds.text (h : Holds L m s env mem written) (ha : L.textSegment ≤ a)
    (ha' : a < L.textSegment + 128) : mem a = m a := by
  have hsep := L.apart
  refine h.frame a (L.inStack_eq_false.mpr (by omega)) fun i hi => ?_
  have hmem := L.valueAddr_mem i
  obtain ⟨hlo, hhi⟩ := hi
  omega

variable {c c' : Config} {calls : Calls}

/-- One round of the loop is the operation of the opcode at `finsh_pc`. -/
theorem Rep.vmStep_eq {vm' : Vm} {b : UInt8} (h : Rep L m c vm)
    (hpc : vm.pc < L.textSegment + 128) (hb : m vm.pc = b)
    (hop : (opTable L calls b.toNat).run { vm with pc := vm.pc + 1 } = some ((), vm')) :
    vmStep L calls vm = some vm' := by
  have htext : L.textSegment ≤ vm.pc := by
    have := h.depth
    omega
  have hload : load vm.mem vm.pc 1 = b.toNat := by
    rw [load, load, h.holds.text htext hpc, hb]
    rfl
  have hfetch : (Exec.immediate L 1).run vm = _ := run_immediate (fresh_text htext (by omega))
  simp [vmStep, hfetch, hload, hop]

/-- One round of the loop leads to the configuration `c` and `n` bytes further. -/
def Steps (L : Layout) (m : Nat → UInt8) (calls : Calls) (vm : Vm) (c : Config) (n : Nat) : Prop :=
  ∃ vm', vmStep L calls vm = some vm' ∧ Rep L m c vm' ∧ vm'.pc = vm.pc + n

/-- An instruction that pushes the entry `e` in place of the entries `top`. -/
theorem Rep.step_push (top : List Entry) {b : UInt8} {n sp : Nat} (h : Rep L m ⟨top ++ s, env⟩ vm)
    (hb : m vm.pc = b) (hpc : vm.pc + n ≤ L.textSegment + 128) (hn : 5 ≤ n + 4 * top.length ∧ 1 ≤ n)
    (hsp : sp = L.slotAddr s.length) (e : Entry)
    (hop : (opTable L calls b.toNat).run { vm with pc := vm.pc + 1 } =
      some ((), Vm.push { vm with pc := vm.pc + n, sp := sp } (e.word L).toNat)) :
    Steps L m calls vm ⟨e :: s, env⟩ n := by
  have hdepth := h.depth
  rw [List.length_append] at hdepth
  subst hsp
  refine ⟨_, h.vmStep_eq (by omega) hb hop, ⟨?_, ?_, h.holds.drop.push (by omega) e, h.clean⟩, rfl⟩
  · simp only [Vm.push, Layout.slotAddr, List.length_cons]
    omega
  · simp only [Vm.push, List.length_cons]
    omega

/-- The operand of an instruction. -/
theorem Rep.operand {v : Nat} (h : Rep L m c vm) (hpc : vm.pc + 5 ≤ L.textSegment + 128)
    (hv : BytesAt m (vm.pc + 1) (leBytes 4 v)) (hlt : v < 2 ^ 32) :
    load vm.mem (vm.pc + 1) 4 = v := by
  have hdepth := h.depth
  have hmem : BytesAt vm.mem (vm.pc + 1) (leBytes 4 v) := by
    refine hv.congr fun y hy hy' => h.holds.text (by omega) ?_
    rw [length_leBytes] at hy'
    omega
  rw [hmem.load]
  exact Nat.mod_eq_of_lt hlt

/-- `LD_DWORD` pushes its operand. -/
theorem Rep.step_ld {v : Nat} (h : Rep L m c vm)
    (htext : BytesAt m vm.pc (Op.ld .dword :: leBytes 4 v))
    (hpc : vm.pc + 5 ≤ L.textSegment + 128) (he : (e.word L).toNat = v) :
    Steps L m calls vm ⟨e :: c.stack, c.env⟩ 5 := by
  have hdepth := h.depth
  have hload := h.operand hpc htext.2 (he ▸ (e.word L).isLt)
  have hop : (opLd L .dword).run { vm with pc := vm.pc + 1 } = _ :=
    run_opLd (fresh_text (Nat.le_succ_of_le (by omega)) hpc)
  rw [hload, ← he] at hop
  exact Rep.step_push [] h htext.1 hpc (by simp) h.sp e hop

theorem Rep.step_ldVar (h : Rep L m c vm)
    (htext : BytesAt m vm.pc (Instr.bytes L (.ldVar i))) (hpc : vm.pc + 5 ≤ L.textSegment + 128) :
    Steps L m calls vm ⟨.val (c.env i) :: c.stack, c.env⟩ 5 := by
  have hdepth := h.depth
  have hload := h.operand hpc htext.2 (L.valueAddr_lt i)
  have hop : (opLdValue L .dword).run { vm with pc := vm.pc + 1 } = _ :=
    run_opLdValue (fresh_text (Nat.le_succ_of_le (by omega)) hpc) hload (fresh_value L _ i)
  rw [h.holds.vars i] at hop
  exact Rep.step_push [] h htext.1 hpc (by simp) h.sp (.val (c.env i)) hop

/-- The two top slots hold the two top entries. -/
theorem Rep.top_two {e' : Entry} (h : Rep L m ⟨e :: e' :: s, env⟩ vm) :
    8 ≤ vm.sp ∧ vm.sp - 8 = L.slotAddr s.length ∧
      load vm.mem (vm.sp - 4) 4 = (e.word L).toNat ∧
      load vm.mem (vm.sp - 8) 4 = (e'.word L).toNat := by
  have hsp := h.sp
  obtain ⟨htop, -, hnext, -⟩ := h.holds.slots
  simp only [Layout.slotAddr, List.length_cons] at hsp htop hnext ⊢
  have hsub : vm.sp - 4 = L.finshVmStack + 4 * (s.length + 1) := by omega
  have hsub' : vm.sp - 8 = L.finshVmStack + 4 * s.length := by omega
  rw [hsub, hsub']
  exact ⟨by omega, rfl, htop, hnext⟩

theorem Rep.top (h : Rep L m ⟨e :: s, env⟩ vm) :
    4 ≤ vm.sp ∧ vm.sp - 4 = L.slotAddr s.length ∧
      load vm.mem (vm.sp - 4) 4 = (e.word L).toNat := by
  have hsp := h.sp
  have htop := h.holds.slots.1
  simp only [Layout.slotAddr, List.length_cons] at hsp htop ⊢
  have hsub : vm.sp - 4 = L.finshVmStack + 4 * s.length := by omega
  rw [hsub]
  exact ⟨by omega, rfl, htop⟩

theorem Rep.step_bin {op : BinOp} {w r : BitVec 32} (h : Rep L m ⟨.val w :: .val v :: s, env⟩ vm)
    (hb : m vm.pc = Op.bin op .dword) (hpc : vm.pc < L.textSegment + 128)
    (hr : op.apply v w = some r) : Steps L m calls vm ⟨.val r :: s, env⟩ 1 := by
  obtain ⟨hsp, hslot, htop, hnext⟩ := h.top_two
  have htable : opTable L calls (Op.bin op .dword).toNat = opBin L op .dword := by cases op <;> rfl
  have hop : (opBin L op .dword).run { vm with pc := vm.pc + 1 } = _ :=
    run_opBin (h.holds.slots.fresh h.sp) hsp (by simpa [htop, hnext, Entry.word] using hr)
  rw [← htable] at hop
  exact Rep.step_push [_, _] h hb hpc (by simp) hslot (.val r) hop

theorem Rep.step_bw (h : Rep L m ⟨.val v :: s, env⟩ vm)
    (hb : m vm.pc = Op.bitwise .dword) (hpc : vm.pc < L.textSegment + 128) :
    Steps L m calls vm ⟨.val (~~~v) :: s, env⟩ 1 := by
  obtain ⟨hsp, hslot, htop⟩ := h.top
  have hop : (opBw L .dword).run { vm with pc := vm.pc + 1 } = _ :=
    run_opBw (h.holds.slots.fresh_top h.sp) hsp
  have hword : BitVec.ofNat 32 (load vm.mem (vm.sp - 4) 4) = v := by
    simp [htop, Entry.word]
  rw [hword] at hop
  exact Rep.step_push [_] h hb hpc (by simp) hslot (.val (~~~v)) hop

theorem Rep.step_ldStack (h : Rep L m ⟨.addr i :: s, env⟩ vm)
    (hb : m vm.pc = Op.ldValueStack .dword) (hpc : vm.pc < L.textSegment + 128) :
    Steps L m calls vm ⟨.val (env i) :: s, env⟩ 1 := by
  obtain ⟨hsp, hslot, htop⟩ := h.top
  have hload : load vm.mem (vm.sp - 4) 4 = L.valueAddr i := by
    rw [htop]
    exact Nat.mod_eq_of_lt (L.valueAddr_lt i)
  have hop : (opLdValueStack L .dword).run { vm with pc := vm.pc + 1 } = _ :=
    run_opLdValueStack (h.holds.slots.fresh_top h.sp) hsp hload (fresh_value L _ i)
  rw [h.holds.vars i] at hop
  exact Rep.step_push [_] h hb hpc (by simp) hslot (.val (env i)) hop

theorem Rep.step_st
    (h : Rep L m ⟨.val v :: .addr i :: s, env⟩ vm) (hb : m vm.pc = Op.st .dword)
    (hpc : vm.pc < L.textSegment + 128) : Steps L m calls vm ⟨.addr i :: s, update env i v⟩ 1 := by
  have hdepth := h.depth
  obtain ⟨hsp, hslot, htop, hnext⟩ := h.top_two
  have hload : load vm.mem (vm.sp - 8) 4 = L.valueAddr i := by
    rw [hnext]
    exact Nat.mod_eq_of_lt (L.valueAddr_lt i)
  have hop : (opSt L .dword).run { vm with pc := vm.pc + 1 } = _ :=
    run_opSt (h.holds.slots.fresh h.sp) hsp hload
  refine ⟨_, h.vmStep_eq hpc hb hop, ?_, rfl⟩
  simp only [List.length_cons] at hdepth
  simp only [htop, Entry.word]
  refine ⟨?_, ?_, h.holds.tail.assign (by simp only [List.length_cons]; omega) i v, h.clean⟩
  · simp only [Layout.slotAddr, List.length_cons] at hslot ⊢
    omega
  · simp only [List.length_cons]
    omega

theorem Rep.step_pop (h : Rep L m ⟨e :: s, env⟩ vm) (hb : m vm.pc = Op.pop)
    (hpc : vm.pc < L.textSegment + 128) : Steps L m calls vm ⟨s, env⟩ 1 := by
  have hdepth := h.depth
  have hop : (Exec.decSp).run { vm with pc := vm.pc + 1 } =
      some ((), { vm with pc := vm.pc + 1, sp := vm.sp - 4 }) := rfl
  refine ⟨_, h.vmStep_eq hpc hb hop, ⟨h.top.2.1, ?_, h.holds.tail, h.clean⟩, rfl⟩
  simp only [List.length_cons] at hdepth ⊢
  omega

theorem Rep.step_noop (h : Rep L m c vm) (hb : m vm.pc = Op.noop)
    (hpc : vm.pc < L.textSegment + 128) : Steps L m calls vm c 1 := by
  have hdepth := h.depth
  refine ⟨{ vm with pc := vm.pc + 1 }, h.vmStep_eq hpc hb rfl, ⟨h.sp, ?_, h.holds, h.clean⟩, rfl⟩
  simp only
  omega

/-- The machine does each instruction of the stack code. -/
theorem Rep.step {i : Instr} (h : Rep L m c vm) (htext : BytesAt m vm.pc (i.bytes L))
    (hlimit : vm.pc + (i.bytes L).length ≤ L.textSegment + 128) (hexec : c.exec i = some c') :
    inText L vm = true ∧ Steps L m calls vm c' (i.bytes L).length := by
  have hdepth := h.depth
  have hlen : 1 ≤ (i.bytes L).length := by cases i <;> simp [Instr.bytes]
  refine ⟨decide_eq_true ⟨by omega, by rw [finshTextMax]; omega⟩, ?_⟩
  -- one case per equation of `exec`; in the last one there is no result
  fun_cases Config.exec c i with
  | case1 env s v =>
    obtain rfl := Option.some.inj hexec
    exact h.step_ld htext hlimit rfl
  | case2 env s i =>
    obtain rfl := Option.some.inj hexec
    exact h.step_ld htext hlimit (Nat.mod_eq_of_lt (L.valueAddr_lt i))
  | case3 env s i =>
    obtain rfl := Option.some.inj hexec
    exact h.step_ldVar htext hlimit
  | case4 env w v s op =>
    obtain ⟨r, hr, rfl⟩ := Option.map_eq_some_iff.mp hexec
    exact h.step_bin htext.1 (by omega) hr
  | case5 env v s =>
    obtain rfl := Option.some.inj hexec
    exact h.step_bw htext.1 (by omega)
  | case6 env v i s =>
    obtain rfl := Option.some.inj hexec
    exact h.step_st htext.1 (by omega)
  | case7 env i s =>
    obtain rfl := Option.some.inj hexec
    exact h.step_ldStack htext.1 (by omega)
  | case8 env e s =>
    obtain rfl := Option.some.inj hexec
    exact h.step_pop htext.1 (by omega)
  | case9 =>
    obtain rfl := Option.some.inj hexec
    exact h.step_noop htext.1 (by omega)
  | case10 => simp_all [Config.exec]

/-! ## Whole runs -/

/-- The values of the shell variables in memory. -/
def Layout.values (L : Layout) (mem : Nat → UInt8) : Env :=
  fun i => BitVec.ofNat 32 (load mem (L.valueAddr i) 4)

/-- The memory after the two `memset` of `finsh_compiler_run`. -/
def Layout.cleared (L : Layout) (mem : Nat → UInt8) : Nat → UInt8 :=
  writeBytes (writeBytes mem L.textSegment (List.replicate finshTextMax 0)) L.finshVmStack
    (List.replicate 4 0)

variable {decls : Decls} {es : List (Expr decls)} {errno : Error}

theorem finshCompilerRun_eq : finshCompilerRun L mem errno (stmtsTree L es) =
    Compiler.emit (assemble L (stmtsCode es)) ⟨L.cleared mem, L.textSegment, errno⟩ := by
  obtain ⟨herr, hcode⟩ := compileStatements_eq (L := L) es errno ⟨L.cleared mem, L.textSegment, errno⟩
  rw [finshCompilerRun]
  simp only [herr]
  exact hcode

/-- The compiler changes the text segment and the first slot of the stack only. -/
theorem finshCompilerRun_mem
    (hfit : (finshCompilerRun L mem errno (stmtsTree L es)).pc ≤ L.textSegment + finshTextMax)
    (ha : ¬ L.InText a) (ha' : a < L.finshVmStack ∨ L.finshVmStack + 4 ≤ a) :
    (finshCompilerRun L mem errno (stmtsTree L es)).mem a = mem a := by
  rw [finshCompilerRun_eq] at hfit ⊢
  simp only [Compiler.emit, Layout.cleared, Layout.InText, finshTextMax] at hfit ha ⊢
  rw [writeBytes_of_apart (by omega),
    writeBytes_of_apart (by rw [List.length_replicate]; exact ha'),
    writeBytes_of_apart (by rw [List.length_replicate]; omega)]

/-- After the compiler the text segment holds the code and then zeros. -/
theorem bytesAt_text
    (hfit : (finshCompilerRun L mem errno (stmtsTree L es)).pc ≤ L.textSegment + finshTextMax) :
    BytesAt (finshCompilerRun L mem errno (stmtsTree L es)).mem L.textSegment
      (assemble L (stmtsCode es) ++
        List.replicate (finshTextMax - (assemble L (stmtsCode es)).length) 0) := by
  rw [finshCompilerRun_eq] at hfit ⊢
  simp only [Compiler.emit] at hfit ⊢
  generalize assemble L (stmtsCode es) = code at hfit ⊢
  have hsep := L.apart
  have hzeros : BytesAt (L.cleared mem) L.textSegment (List.replicate finshTextMax 0) := by
    refine bytesAt_writeBytes.congr fun y hy hy' => writeBytes_of_apart ?_
    simp only [List.length_replicate, finshTextMax] at hy' ⊢
    omega
  have hsplit : finshTextMax = code.length + (finshTextMax - code.length) := by omega
  rw [hsplit, ← List.replicate_append_replicate, bytesAt_append, List.length_replicate] at hzeros
  refine bytesAt_append.mpr ⟨bytesAt_writeBytes, hzeros.2.congr fun y hy _ => ?_⟩
  exact writeBytes_of_apart (.inr hy)

theorem assemble_noops (n : Nat) : assemble L (List.replicate n .noop) = List.replicate n 0 := by
  induction n with
  | zero => rfl
  | succ n ih =>
    rw [List.replicate_succ, assemble_cons, ih]
    rfl

theorem run_noops (c : Config) (n : Nat) : run Config.exec c (List.replicate n .noop) = some c := by
  induction n with
  | zero => rfl
  | succ n ih => exact run_cons.mpr ⟨c, rfl, ih⟩

theorem length_le_assemble (is : List Instr) : is.length ≤ (assemble L is).length := by
  induction is with
  | nil => exact Nat.le_refl 0
  | cons i is ih =>
    have hi : 1 ≤ (i.bytes L).length := by cases i <;> simp [Instr.bytes]
    rw [assemble_cons, List.length_append, List.length_cons]
    omega

/-- The machine before the first round. -/
theorem rep_vmStart (L : Layout) (m : Nat → UInt8) : Rep L m ⟨[], L.values m⟩ (vmStart L m) where
  sp := rfl
  depth := Nat.le_refl _
  holds := by
    refine ⟨trivial, fun i => ?_, fun _ _ _ => rfl⟩
    exact (Nat.mod_eq_of_lt (load_lt m (L.valueAddr i) 4)).symm
  clean := rfl

/-- Code that fits into the text segment runs to its end, and so does the machine on it. -/
theorem finshVmRun_rep (calls : Calls) {m : Nat → UInt8} {is : List Instr} {c : Config}
    (hfit : (assemble L is).length ≤ finshTextMax) (htext : BytesAt m L.textSegment
      (assemble L is ++ List.replicate (finshTextMax - (assemble L is).length) 0))
    (hexec : run Config.exec ⟨[], L.values m⟩ is = some c) :
    ∃ vm, finshVmRun L calls m = some vm ∧ Rep L m c vm := by
  -- The zeros behind the code are instructions too, so that the list fills the text segment.
  let all := is ++ List.replicate (finshTextMax - (assemble L is).length) .noop
  have hall : assemble L all =
      assemble L is ++ List.replicate (finshTextMax - (assemble L is).length) 0 := by
    rw [assemble_append, assemble_noops]
  have hlength : (assemble L all).length = finshTextMax := by
    rw [hall, List.length_append, List.length_replicate]
    omega
  have hrun : run Config.exec ⟨[], L.values m⟩ all = some c :=
    run_append.mpr ⟨c, hexec, run_noops c _⟩
  rw [← hall] at htext
  obtain ⟨vm, hrounds, hrep, hpc⟩ := simulates (R := Rep L m) Rep.step (rep_vmStart L m) htext
    (Nat.le_of_eq (congrArg _ hlength)) hrun
  have hstop : inText L vm = false := by
    refine decide_eq_false fun h => ?_
    have hend : vm.pc = L.textSegment + finshTextMax := hpc.trans (congrArg _ hlength)
    omega
  have hfuel : all.length ≤ finshTextMax := hlength ▸ length_le_assemble all
  exact ⟨vm, hrounds.loop_eq hstop hfuel, hrep⟩

theorem values_finshCompilerRun
    (hfit : (finshCompilerRun L mem errno (stmtsTree L es)).pc ≤ L.textSegment + finshTextMax) :
    L.values (finshCompilerRun L mem errno (stmtsTree L es)).mem = L.values mem := by
  funext i
  have hi := L.valueAddr_mem i
  have hsep := L.apart
  refine congrArg (BitVec.ofNat 32) (load_congr fun k hk => finshCompilerRun_mem hfit ?_ (by omega))
  simp only [Layout.InText, finshTextMax]
  omega

/-- The code of statements leaves at most the value of the last one on the stack. -/
theorem run_stmtsCode_all {u : BitVec 32} {env' : Env} (h : evalStmts u es env = some (v, env')) :
    ∃ s, run Config.exec ⟨[], env⟩ (stmtsCode es) = some ⟨s, env'⟩ ∧ (es ≠ [] → s = [.val v]) := by
  cases es with
  | nil =>
    obtain ⟨-, rfl⟩ : u = v ∧ env = env' := by simpa [evalStmts] using h
    exact ⟨[], rfl, fun hne => absurd rfl hne⟩
  | cons e es => exact ⟨_, run_stmtsCode h, fun _ => rfl⟩

/-- Compiling and running integer statements whose code fits into the text segment: the first slot
of the stack holds the value of the last statement, the variables have their values after it,
no slot is read before it is written, and the memory outside of the stack and the values of
the variables stays as the compiler left it. The compiler itself changes the text segment and
the first slot. -/
theorem integer_statements_run (L : Layout) (calls : Calls) (mem : Nat → UInt8) (errno : Error)
    (es : List (Expr decls)) {v : BitVec 32} {env' : Env}
    (heval : evalStmts 0 es (L.values mem) = some (v, env'))
    (hfit : (finshCompilerRun L mem errno (stmtsTree L es)).pc ≤ L.textSegment + finshTextMax) :
    (∀ a, ¬ L.InText a → (a < L.finshVmStack ∨ L.finshVmStack + 4 ≤ a) →
      (finshCompilerRun L mem errno (stmtsTree L es)).mem a = mem a) ∧
    ∃ vm, finshVmRun L calls (finshCompilerRun L mem errno (stmtsTree L es)).mem = some vm ∧
      (es ≠ [] → load vm.mem L.finshVmStack 4 = v.toNat) ∧
      L.values vm.mem = env' ∧
      vm.clean = true ∧
      ∀ a, L.inStack a = false → (∀ i, ¬ L.InValue i a) →
        vm.mem a = (finshCompilerRun L mem errno (stmtsTree L es)).mem a := by
  refine ⟨fun a => finshCompilerRun_mem hfit, ?_⟩
  rw [← values_finshCompilerRun hfit] at heval
  obtain ⟨s, hexec, hs⟩ := run_stmtsCode_all heval
  have hlength : (assemble L (stmtsCode es)).length ≤ finshTextMax := by
    rw [finshCompilerRun_eq] at hfit
    simp only [Compiler.emit] at hfit
    omega
  obtain ⟨vm, hrun, hrep⟩ := finshVmRun_rep calls hlength (bytesAt_text hfit) hexec
  refine ⟨vm, hrun, fun hne => ?_, ?_, hrep.clean, hrep.holds.frame⟩
  · obtain rfl := hs hne
    exact hrep.holds.slots.1
  · funext i
    simp [Layout.values, hrep.holds.vars i]

/-- A layout with the three objects one behind the other. -/
def sampleLayout : Layout where
  textSegment := 0x20000000
  finshVmStack := 0x20000080
  globalVariable := 0x20000180
  text_lt := by decide
  stack_lt := by decide
  variable_lt := by decide
  text_stack := by decide
  text_variable := by decide
  stack_variable := by decide

/-- `a = 7; b = a++ * 3 - (~a << 2);` with `int a` and `long b`. -/
def sampleStmts : List (Expr fun i => if i.val = 0 then .int else .long) :=
  let a : IntVar _ := ⟨⟨0, by decide⟩, .inl rfl⟩
  let b : IntVar _ := ⟨⟨1, by decide⟩, .inr rfl⟩
  [.assign a (.intLit 7),
    .assign b (.bin .sub (.bin .mul (.inc a) (.intLit 3))
      (.bin .shl (.bitwise (.var a)) (.longLit 2)))]

theorem integer_statements_run_sample :
    ∃ vm, finshVmRun sampleLayout (fun _ _ _ => none)
        (finshCompilerRun sampleLayout (fun _ => 0) .ok (stmtsTree sampleLayout sampleStmts)).mem =
          some vm ∧
      load vm.mem sampleLayout.finshVmStack 4 = 57 ∧
      sampleLayout.values vm.mem ⟨0, by decide⟩ = 8 ∧ vm.clean = true := by
  obtain ⟨-, vm, hrun, hvalue, hvars, hclean, -⟩ := integer_statements_run sampleLayout
    (fun _ _ _ => none) (fun _ => 0) .ok sampleStmts rfl (by decide)
  exact ⟨vm, hrun, hvalue (by simp [sampleStmts]), congrFun hvars _, hclean⟩

end RtThread.Finsh
