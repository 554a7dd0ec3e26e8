-- SUMMARY: How long the code of a syntax tree is.
import ZigbeeGateway.Finsh.VmRun

/-!
# The length of the code

Nothing in the compiler bounds the code of a line. Its length is the sum of what the nodes of the checked
tree take, from nothing up to 18 bytes, and of a pop for each statement but the last one.
-/

namespace RtThread.Finsh

open ByteMem

/-- `n w` bytes at the width `w` of a data type, and none if it has no width. -/
def sized (dataType : Nat) (n : Width → Nat) : Nat := (Width.ofDataType dataType).elim 0 n

/-- The same for a child that has to be an identifier. -/
def onIdLength (child : Node) (n : Nat) : Nat :=
  match child.data? with
  | some dc => if dc.nodeType = .id then n else 0
  | none => 0

/-- The bytes of code for the node itself. -/
def NodeData.codeLength (d : NodeData) (child : Node) : Nat :=
  match d.nodeType with
  | .id =>
    match d.id with
    | some (.syscall _ _) => 5
    | some (.sysvar _ type _) | some (.var _ type) => type.width.elim 0 fun _ => 5
    | none => 0
  | .valueChar => 2
  | .valueInt | .valueLong | .valueNull | .valueString => 5
  | .sysAdd | .sysSub | .sysMul | .sysDiv | .sysMod | .sysAnd | .sysOr | .sysXor | .sysBitwise | .sysShl
  | .sysShr => sized d.dataType fun _ => 1
  | .sysFunc => if child.isNull then 0 else 2
  | .sysAssign =>
    match child.data? with
    | some dc =>
      if dc.nodeType = .id then sized dc.dataType fun _ => 2
      else if dc.nodeType = .sysGetvalue then sized (dc.dataType % 16) fun _ => 2
      else 0
    | none => 0
  | .sysPreinc | .sysPredec => onIdLength child (sized d.dataType fun w => 9 + w.bytes)
  | .sysInc | .sysDec => onIdLength child (sized d.dataType fun w => 14 + w.bytes)
  | .sysNull => 4
  | .sysGetvalue => if d.address then 0 else sized d.dataType fun _ => 1
  | .sysGetaddr | .unknown | .sysCast => 0

/-- The bytes for a tree and its siblings. -/
def Node.codeLength : Node → Nat
  | null => 0
  | node d child sibling => child.codeLength + d.codeLength child + sibling.codeLength

/-- The bytes for a chain of statements, with the pops between them. -/
def Node.lineLength : Node → Nat
  | null => 0
  | node d child sibling =>
    child.codeLength + d.codeLength child + (if sibling.isNull then 0 else 1) + sibling.lineLength

variable {c : Compiler} {w : Width} {a dataType : Nat}

@[simp] theorem emit_pc (bs : List UInt8) : (c.emit bs).pc = c.pc + bs.length := rfl

@[simp] theorem codeConst_pc (x : Nat) : (c.codeConst x w).pc = c.pc + w.bytes := by
  cases w <;> rfl

theorem codeOp_pc (opcode : Width → UInt8) :
    (c.codeOp opcode dataType).pc = c.pc + sized dataType fun _ => 1 := by
  unfold Compiler.codeOp sized
  cases Width.ofDataType dataType <;> rfl

theorem codeStore_pc : (c.codeStore dataType).pc = c.pc + sized dataType fun _ => 2 := by
  unfold Compiler.codeStore sized
  cases Width.ofDataType dataType <;> rfl

theorem codeId_pc {type : FinshType} {address : Bool} :
    (c.codeId type address a).pc = c.pc + type.width.elim 0 fun _ => 5 := by
  unfold Compiler.codeId
  cases type.width <;> rfl

theorem codeChange_pc {op : BinOp} :
    (c.codePre op a dataType).pc = c.pc + sized dataType (fun w => 9 + w.bytes) ∧
      (c.codePost op a dataType).pc = c.pc + sized dataType fun w => 14 + w.bytes := by
  unfold Compiler.codePre Compiler.codePost sized
  cases Width.ofDataType dataType with
  | none => exact ⟨rfl, rfl⟩
  | some w =>
    simp only [codeByte_eq_emit, codeDword_eq_emit, emit_pc, codeConst_pc, List.length_singleton, length_leBytes,
      Option.elim_some]
    omega

theorem onId_pc {child : Node} {code : NodeData → Compiler → Compiler} {n : Nat}
    (h : ∀ dc, (code dc c).pc = c.pc + n) : (onId child code c).pc = c.pc + onIdLength child n := by
  unfold onId onIdLength
  cases child.data? with
  | none => rfl
  | some dc =>
    dsimp only
    split
    · exact h dc
    · rfl

theorem compileNode_pc (d : NodeData) (child : Node) (c : Compiler) :
    (compileNode d child c).pc = c.pc + d.codeLength child := by
  unfold compileNode NodeData.codeLength
  cases d.nodeType with
  | id =>
    cases d.id with
    | none => rfl
    | some symbol =>
      cases symbol with
      | syscall => rfl
      | var | sysvar => exact codeId_pc
  | valueChar | valueInt | valueLong | valueNull | valueString => rfl
  | sysAdd | sysSub | sysMul | sysDiv | sysMod | sysAnd | sysOr | sysXor | sysBitwise | sysShl | sysShr =>
    exact codeOp_pc _
  | sysFunc =>
    dsimp only
    split <;> rfl
  | sysAssign =>
    cases child.data? with
    | none => rfl
    | some dc =>
      dsimp only
      split
      · exact codeStore_pc
      · split
        · exact codeStore_pc
        · rfl
  | sysPreinc | sysPredec => exact onId_pc fun _ => codeChange_pc.1
  | sysInc | sysDec => exact onId_pc fun _ => codeChange_pc.2
  | sysNull => rfl
  | sysGetvalue =>
    dsimp only
    split
    · rfl
    · exact codeOp_pc _
  | sysGetaddr | unknown | sysCast => rfl

theorem finshCompile_pc (t : Node) (c : Compiler) : (finshCompile t c).pc = c.pc + t.codeLength := by
  induction t generalizing c with
  | null => rfl
  | node d child sibling ihc ihs =>
    rw [finshCompile, ihs, compileNode_pc, ihc, Node.codeLength]
    omega

theorem compileStatements_pc (t : Node) (c : Compiler) : (compileStatements t c).pc = c.pc + t.lineLength := by
  induction t generalizing c with
  | null => rfl
  | node d child sibling _ ihs =>
    rw [compileStatements, ihs, Node.lineLength]
    split
    all_goals
      simp only [codeByte_eq_emit, emit_pc, List.length_singleton, finshCompile_pc, Node.codeLength]
      omega

/-- The code of a tree stays in the text segment exactly when the bytes of its checked nodes and the pops
between its statements are at most `FINSH_TEXT_MAX`. -/
theorem code_fits_iff (L : Layout) (mem : Nat → UInt8) (errno : Error) (t : Node) :
    (finshCompilerRun L mem errno t).pc ≤ L.textSegment + finshTextMax ↔
      (finshTypeCheck t false errno).1.lineLength ≤ finshTextMax := by
  rw [finshCompilerRun, compileStatements_pc]
  exact Nat.add_le_add_iff_left

theorem finshVariableMax_pos : 0 < finshVariableMax := by decide

/-- `a++;` `n` times, with `int a`. -/
def increments (n : Nat) : List (Expr fun _ => .int) :=
  List.replicate n (.inc ⟨⟨0, finshVariableMax_pos⟩, .inl rfl⟩)

example : (finshTypeCheck (stmtsTree sampleLayout (increments 5)) false .ok).1.lineLength = 119 := by decide

/-- `FINSH_NODE_MAX`. -/
def finshNodeMax : Nat := 16

/-- The number of nodes of a tree and its siblings. -/
def Node.count : Node → Nat
  | null => 0
  | node _ child sibling => child.count + sibling.count + 1

/-- The code of six increments ends 15 bytes behind the text segment. -/
theorem code_too_long : (stmtsTree sampleLayout (increments 6)).count ≤ finshNodeMax ∧
    (finshCompilerRun sampleLayout (fun _ => 0) .ok (stmtsTree sampleLayout (increments 6))).pc =
      sampleLayout.textSegment + finshTextMax + 15 := by
  decide

end RtThread.Finsh
