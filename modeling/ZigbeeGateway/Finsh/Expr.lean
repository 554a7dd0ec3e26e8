-- SUMMARY: Integer statements of the shell and their stack code.
import ZigbeeGateway.Finsh.Vm

/-!
# Integer statements

The statements over `int` and `long` literals and shell variables. `eval` is what they mean, and
`tree` is the syntax tree that the parser builds for them. In between stands `code`: instructions
on a stack that knows values from addresses and has no positions. `run_code` says that the code
computes the value, and `finshCompilerRun_eq` that its bytes are what the compiler writes.
-/

namespace RtThread.Finsh

open ByteMem Run Function

/-! ## Meaning -/

/-- The values of the shell variables. -/
abbrev Env : Type := Fin finshVariableMax → BitVec 32

/-- The types of the shell variables. -/
abbrev Decls : Type := Fin finshVariableMax → FinshType

/-- A shell variable of type `int` or `long`. -/
structure IntVar (decls : Decls) where
  index : Fin finshVariableMax
  isInt : decls index = .int ∨ decls index = .long

inductive Expr (decls : Decls) where
  | intLit (v : BitVec 32)
  | longLit (v : BitVec 32)
  | var (x : IntVar decls)
  | neg (e : Expr decls)
  | bitwise (e : Expr decls)
  | bin (op : BinOp) (a b : Expr decls)
  | preinc (x : IntVar decls)
  | predec (x : IntVar decls)
  | inc (x : IntVar decls)
  | dec (x : IntVar decls)
  | assign (x : IntVar decls) (e : Expr decls)

variable {decls : Decls}

/-- The value of an expression and the variables after it, evaluated from left to right in 32-bit
two's complement. There is none if a division or a shift has none. -/
def Expr.eval : Expr decls → Env → Option (BitVec 32 × Env)
  | .intLit v, env => some (v, env)
  | .longLit v, env => some (v, env)
  | .var x, env => some (env x.index, env)
  | .neg e, env => do
    let (v, env) ← e.eval env
    return (-v, env)
  | .bitwise e, env => do
    let (v, env) ← e.eval env
    return (~~~v, env)
  | .bin op a b, env => do
    let (v, env) ← a.eval env
    let (w, env) ← b.eval env
    let r ← op.apply v w
    return (r, env)
  | .preinc x, env => some (env x.index + 1, update env x.index (env x.index + 1))
  | .predec x, env => some (env x.index - 1, update env x.index (env x.index - 1))
  | .inc x, env => some (env x.index, update env x.index (env x.index + 1))
  | .dec x, env => some (env x.index, update env x.index (env x.index - 1))
  | .assign x e, env => do
    let (v, env) ← e.eval env
    return (v, update env x.index v)

/-- The value of the last statement, and the variables after all of them. The first argument is
the value before the first statement. -/
def evalStmts : BitVec 32 → List (Expr decls) → Env → Option (BitVec 32 × Env)
  | last, [], env => some (last, env)
  | _, e :: es, env => do
    let (v, env) ← e.eval env
    evalStmts v es env

/-! ## Stack code -/

/-- An entry of the stack: a value, or the address of a variable. -/
inductive Entry where
  | val (v : BitVec 32)
  | addr (i : Fin finshVariableMax)

inductive Instr where
  | ldConst (v : BitVec 32)
  | ldAddr (i : Fin finshVariableMax)
  | ldVar (i : Fin finshVariableMax)
  | bin (op : BinOp)
  | bw
  | st
  | ldStack
  | pop
  | noop

structure Config where
  stack : List Entry
  env : Env

/-- One instruction. It has no result if the stack does not hold what it takes. -/
def Config.exec : Config → Instr → Option Config
  | ⟨s, env⟩, .ldConst v => some ⟨.val v :: s, env⟩
  | ⟨s, env⟩, .ldAddr i => some ⟨.addr i :: s, env⟩
  | ⟨s, env⟩, .ldVar i => some ⟨.val (env i) :: s, env⟩
  | ⟨.val w :: .val v :: s, env⟩, .bin op => (op.apply v w).map fun r => ⟨.val r :: s, env⟩
  | ⟨.val v :: s, env⟩, .bw => some ⟨.val (~~~v) :: s, env⟩
  | ⟨.val v :: .addr i :: s, env⟩, .st => some ⟨.addr i :: s, update env i v⟩
  | ⟨.addr i :: s, env⟩, .ldStack => some ⟨.val (env i) :: s, env⟩
  | ⟨_ :: s, env⟩, .pop => some ⟨s, env⟩
  | c, .noop => some c
  | _, _ => none

/-- Add to a variable whose address is on the stack. The address stays there. -/
def stepVar (op : BinOp) (i : Fin finshVariableMax) : List Instr :=
  [.ldVar i, .ldConst 1, .bin op, .st]

/-- The code of `++v` and `--v`. -/
def preCode (op : BinOp) (i : Fin finshVariableMax) : List Instr :=
  [.ldAddr i] ++ stepVar op i ++ [.ldStack]

/-- The code of `v++` and `v--`. -/
def postCode (op : BinOp) (i : Fin finshVariableMax) : List Instr :=
  [.ldVar i, .ldAddr i] ++ stepVar op i ++ [.pop]

def Expr.code : Expr decls → List Instr
  | .intLit v => [.ldConst v]
  | .longLit v => [.ldConst v]
  | .var x => [.ldVar x.index]
  | .neg e => [.ldConst 0] ++ e.code ++ [.bin .sub]
  | .bitwise e => e.code ++ [.bw]
  | .bin op a b => a.code ++ b.code ++ [.bin op]
  | .preinc x => preCode .add x.index
  | .predec x => preCode .sub x.index
  | .inc x => postCode .add x.index
  | .dec x => postCode .sub x.index
  | .assign x e => [.ldAddr x.index] ++ e.code ++ [.st, .ldStack]

def stmtsCode : List (Expr decls) → List Instr
  | [] => []
  | [e] => e.code
  | e :: es => e.code ++ [.pop] ++ stmtsCode es

variable {op : BinOp} {i : Fin finshVariableMax} {s : List Entry} {env : Env} {v : BitVec 32}

theorem run_stepVar
    (h : op.apply (env i) 1#32 = some v) :
    run Config.exec ⟨.addr i :: s, env⟩ (stepVar op i) =
      some ⟨.addr i :: s, update env i v⟩ := by
  simp [stepVar, run, Config.exec, h]

theorem run_preCode
    (h : op.apply (env i) 1#32 = some v) :
    run Config.exec ⟨s, env⟩ (preCode op i) =
      some ⟨.val v :: s, update env i v⟩ := by
  refine run_append.mpr ⟨_, run_append.mpr ⟨_, rfl, run_stepVar h⟩, ?_⟩
  simp [run, Config.exec]

theorem run_postCode
    (h : op.apply (env i) 1#32 = some v) :
    run Config.exec ⟨s, env⟩ (postCode op i) =
      some ⟨.val (env i) :: s, update env i v⟩ :=
  run_append.mpr ⟨_, run_append.mpr ⟨_, rfl, run_stepVar h⟩, rfl⟩

/-- The code of an expression pushes its value. -/
theorem run_code {e : Expr decls} {env' : Env} (h : e.eval env = some (v, env')) :
    run Config.exec ⟨s, env⟩ e.code = some ⟨.val v :: s, env'⟩ := by
  induction e generalizing s env env' v with
  | intLit w | longLit w =>
    obtain ⟨rfl, rfl⟩ : w = v ∧ env = env' := by simpa [Expr.eval] using h
    rfl
  | var x =>
    obtain ⟨rfl, rfl⟩ : env x.index = v ∧ env = env' := by simpa [Expr.eval] using h
    rfl
  | neg e ih =>
    obtain ⟨w, he, rfl⟩ : ∃ w, e.eval env = some (w, env') ∧ -w = v := by
      simpa [Expr.eval, Option.bind_eq_some_iff, and_assoc] using h
    refine run_append.mpr ⟨_, run_append.mpr ⟨_, rfl, ih he⟩, ?_⟩
    simp [run, Config.exec, BinOp.apply]
  | bitwise e ih =>
    obtain ⟨w, he, rfl⟩ : ∃ w, e.eval env = some (w, env') ∧ ~~~w = v := by
      simpa [Expr.eval, Option.bind_eq_some_iff, and_assoc] using h
    exact run_append.mpr ⟨_, ih he, rfl⟩
  | bin op a b iha ihb =>
    obtain ⟨va, enva, ha, vb, hb, hop⟩ : ∃ va enva, a.eval env = some (va, enva) ∧
        ∃ vb, b.eval enva = some (vb, env') ∧ op.apply va vb = some v := by
      simpa [Expr.eval, Option.bind_eq_some_iff, and_assoc] using h
    refine run_append.mpr ⟨_, run_append.mpr ⟨_, iha ha, ihb hb⟩, ?_⟩
    simp [run, Config.exec, hop]
  | preinc x | predec x =>
    obtain ⟨rfl, rfl⟩ := by simpa [Expr.eval] using h
    exact run_preCode rfl
  | inc x | dec x =>
    obtain ⟨rfl, rfl⟩ := by simpa [Expr.eval] using h
    exact run_postCode rfl
  | assign x e ih =>
    obtain ⟨env1, he, rfl⟩ : ∃ env1, e.eval env = some (v, env1) ∧
        update env1 x.index v = env' := by
      simpa [Expr.eval, Option.bind_eq_some_iff, and_assoc] using h
    refine run_append.mpr ⟨_, run_append.mpr ⟨_, rfl, ih he⟩, ?_⟩
    simp [run, Config.exec]

/-- The code of a list of statements leaves the value of the last one. -/
theorem run_stmtsCode {e : Expr decls} {es : List (Expr decls)} {env' : Env}
    {u : BitVec 32} (h : evalStmts u (e :: es) env = some (v, env')) :
    run Config.exec ⟨[], env⟩ (stmtsCode (e :: es)) = some ⟨[.val v], env'⟩ := by
  induction es generalizing e env u with
  | nil =>
    have he : e.eval env = some (v, env') := by
      simpa [evalStmts, Option.bind_eq_some_iff] using h
    exact run_code he
  | cons e' es ih =>
    obtain ⟨w, env1, he, hes⟩ : ∃ w env1, e.eval env = some (w, env1) ∧
        evalStmts w (e' :: es) env1 = some (v, env') := by
      simpa only [evalStmts, Option.bind_eq_bind, Option.bind_eq_some_iff, Prod.exists] using h
    exact run_append.mpr ⟨_, run_append.mpr ⟨_, run_code he, rfl⟩, ih hes⟩

/-! ## Syntax trees -/

section Trees

variable (L : Layout)

/-- The address of the value of a shell variable. -/
def Layout.valueAddr (i : Fin finshVariableMax) : Nat :=
  L.globalVariable + finshVarSize * i + finshVarValue

def BinOp.nodeType : BinOp → NodeType
  | .add => .sysAdd
  | .sub => .sysSub
  | .div => .sysDiv
  | .mod => .sysMod
  | .mul => .sysMul
  | .and => .sysAnd
  | .or => .sysOr
  | .xor => .sysXor
  | .shl => .sysShl
  | .shr => .sysShr

/-- The entry of `global_variable` that a variable refers to. -/
def IntVar.symbol (x : IntVar decls) : Symbol :=
  .var (L.globalVariable + finshVarSize * x.index) (decls x.index)

/-- `finsh_node_new_id`. -/
def IntVar.tree (x : IntVar decls) (sibling : Node) : Node :=
  .node { nodeType := .id, id := some (x.symbol L) } .null sibling

/-- The tree that the parser builds for an expression, with the node that follows it in the chain
of its parent. The right operand is the sibling of the left one, and `-e` is `0 - e`. -/
def Expr.tree : Expr decls → Node → Node
  | .intLit v, sibling => .node { nodeType := .valueInt, value := v } .null sibling
  | .longLit v, sibling => .node { nodeType := .valueLong, value := v } .null sibling
  | .var x, sibling => x.tree L sibling
  | .neg e, sibling =>
    let zero := .node { nodeType := .valueLong, value := 0 } .null (e.tree .null)
    .node { nodeType := .sysSub } zero sibling
  | .bitwise e, sibling => .node { nodeType := .sysBitwise } (e.tree .null) sibling
  | .bin op a b, sibling => .node { nodeType := op.nodeType } (a.tree (b.tree .null)) sibling
  | .preinc x, sibling => .node { nodeType := .sysPreinc } (x.tree L .null) sibling
  | .predec x, sibling => .node { nodeType := .sysPredec } (x.tree L .null) sibling
  | .inc x, sibling => .node { nodeType := .sysInc } (x.tree L .null) sibling
  | .dec x, sibling => .node { nodeType := .sysDec } (x.tree L .null) sibling
  | .assign x e, sibling => .node { nodeType := .sysAssign } (x.tree L (e.tree .null)) sibling

/-- The statements are a chain of siblings. -/
def stmtsTree : List (Expr decls) → Node
  | [] => .null
  | e :: es => e.tree L (stmtsTree es)

/-- The bytes of an instruction. -/
def Instr.bytes : Instr → List UInt8
  | .ldConst v => Op.ld .dword :: leBytes 4 v.toNat
  | .ldAddr i => Op.ld .dword :: leBytes 4 (L.valueAddr i)
  | .ldVar i => Op.ldValue .dword :: leBytes 4 (L.valueAddr i)
  | .bin op => [Op.bin op .dword]
  | .bw => [Op.bitwise .dword]
  | .st => [Op.st .dword]
  | .ldStack => [Op.ldValueStack .dword]
  | .pop => [Op.pop]
  | .noop => [Op.noop]

def assemble (code : List Instr) : List UInt8 := code.flatMap (Instr.bytes L)

@[simp] theorem assemble_nil : assemble L [] = [] := rfl

@[simp] theorem assemble_cons (i : Instr) (is : List Instr) :
    assemble L (i :: is) = i.bytes L ++ assemble L is := rfl

@[simp] theorem assemble_append (is js : List Instr) :
    assemble L (is ++ js) = assemble L is ++ assemble L js := List.flatMap_append

theorem assemble_singleton (i : Instr) : assemble L [i] = i.bytes L := by simp

end Trees

/-! ## Compilation -/

/-- Write a byte string at `finsh_compile_pc`. -/
def Compiler.emit (bs : List UInt8) (c : Compiler) : Compiler :=
  { c with mem := writeBytes c.mem c.pc bs, pc := c.pc + bs.length }

@[simp] theorem emit_nil (c : Compiler) : c.emit [] = c := rfl

@[simp] theorem emit_emit (c : Compiler) (as bs : List UInt8) :
    (c.emit as).emit bs = c.emit (as ++ bs) := by
  simp [Compiler.emit, writeBytes_append, Nat.add_assoc]

@[simp] theorem codeByte_eq_emit (c : Compiler) (x : UInt8) : c.codeByte x = c.emit [x] := rfl

@[simp] theorem codeDword_eq_emit (c : Compiler) (x : Nat) :
    c.codeDword x = c.emit (leBytes 4 x) := by
  simp [Compiler.codeDword, Compiler.emit, store_eq_writeBytes]

variable {L : Layout}

@[simp] theorem finshTypeCheck_null (isAddr : Bool) (errno : Error) :
    finshTypeCheck .null isAddr errno = (.null, errno) := rfl

@[simp] theorem finshCompile_null (c : Compiler) : finshCompile .null c = c := rfl

/-- What the compiler makes of a tree that is no left side: after the type check its first node
has the width of a `long`, and the code of the tree comes before the code of its sibling. -/
def Compiles (tree : Node → Node) (code : List UInt8) : Prop :=
  ∀ sibling errno, ∃ d child,
    finshTypeCheck (tree sibling) false errno =
      (.node d child (finshTypeCheck sibling false errno).1,
        (finshTypeCheck sibling false errno).2) ∧
    d.dataType = 0x03 ∧
    ∀ sibling' c, finshCompile (.node d child sibling') c = finshCompile sibling' (c.emit code)

theorem IntVar.dataType_eq (x : IntVar decls) : (decls x.index).dataType = some 0x03 := by
  rcases x.isInt with h | h <;> rw [h] <;> rfl

theorem IntVar.width_eq (x : IntVar decls) : (decls x.index).width = some .dword := by
  rcases x.isInt with h | h <;> rw [h] <;> rfl

/-- The node of a variable after the type check. -/
def IntVar.checked (L : Layout) (x : IntVar decls) (isAddr : Bool) : NodeData where
  nodeType := .id
  dataType := 0x03
  address := isAddr
  id := some (x.symbol L)

theorem finshTypeCheck_var (x : IntVar decls) (isAddr : Bool) (sibling : Node) (errno : Error) :
    finshTypeCheck (x.tree L sibling) isAddr errno =
      (.node (x.checked L isAddr) .null (finshTypeCheck sibling false errno).1,
        (finshTypeCheck sibling false errno).2) := by
  simp [IntVar.tree, IntVar.checked, IntVar.symbol, finshTypeCheck, markAddr, leafType, Node.data?,
    x.dataType_eq]

/-- The code of a variable: the address of its value in a left side, else the value. -/
theorem finshCompile_var (x : IntVar decls) (isAddr : Bool) (sibling : Node) (c : Compiler) :
    finshCompile (.node (x.checked L isAddr) .null sibling) c =
      finshCompile sibling (c.emit (Instr.bytes L
        (if isAddr then .ldAddr x.index else .ldVar x.index))) := by
  cases isAddr <;>
    simp [finshCompile, compileNode, IntVar.checked, IntVar.symbol, Compiler.codeId, x.width_eq,
      Instr.bytes, Layout.valueAddr]

/-- An operator node takes the data type of its first operand. -/
theorem finshTypeCheck_sys {type : NodeType} {isAddr : Bool} {child cc cs sibling : Node}
    {dc : NodeData} {errno : Error} (hmode : childAddr type false = isAddr)
    (hchild : finshTypeCheck child isAddr errno = (.node dc cc cs, errno)) :
    finshTypeCheck (.node { nodeType := type } child sibling) false errno =
      (.node { nodeType := type, dataType := dc.dataType } (.node dc cc cs)
        (finshTypeCheck sibling false errno).1, (finshTypeCheck sibling false errno).2) := by
  simp [finshTypeCheck, hmode, hchild, markAddr, Node.data?]

theorem compiles_literal {type : NodeType} (v : BitVec 32)
    (htype : type = .valueInt ∨ type = .valueLong) :
    Compiles (Node.node { nodeType := type, value := v } .null) (Instr.bytes L (.ldConst v)) := by
  intro sibling errno
  refine ⟨{ nodeType := type, dataType := 0x03, value := v }, .null, ?_, rfl, fun _ c => ?_⟩
  · rcases htype with rfl | rfl <;> simp [finshTypeCheck, markAddr, leafType, Node.data?]
  · rcases htype with rfl | rfl <;> simp [compileNode, finshCompile, Instr.bytes]

theorem compiles_var (x : IntVar decls) : Compiles (x.tree L) (Instr.bytes L (.ldVar x.index)) := by
  intro sibling errno
  exact ⟨x.checked L false, .null, finshTypeCheck_var x false sibling errno, rfl,
    fun sibling' c => finshCompile_var x false sibling' c⟩

theorem Compiles.bitwise {tree : Node → Node} {code : List UInt8} (h : Compiles tree code) :
    Compiles (Node.node { nodeType := .sysBitwise } (tree .null))
      (code ++ Instr.bytes L .bw) := by
  intro sibling errno
  obtain ⟨d, child, hcheck, hd, hcode⟩ := h .null errno
  refine ⟨_, _, finshTypeCheck_sys rfl hcheck, hd, fun sibling' c => ?_⟩
  rw [finshCompile, hcode]
  simp [compileNode, hd, Compiler.codeOp, Width.ofDataType, Instr.bytes]

theorem Compiles.bin {ta tb : Node → Node} {ca cb : List UInt8} (op : BinOp)
    (ha : Compiles ta ca) (hb : Compiles tb cb) :
    Compiles (Node.node { nodeType := op.nodeType } (ta (tb .null)))
      (ca ++ cb ++ Instr.bytes L (.bin op)) := by
  intro sibling errno
  obtain ⟨db, childb, hcheckb, -, hcodeb⟩ := hb .null errno
  obtain ⟨da, childa, hchecka, hda, hcodea⟩ := ha (tb .null) errno
  rw [hcheckb] at hchecka
  have hmode : childAddr op.nodeType false = false := by cases op <;> rfl
  refine ⟨_, _, finshTypeCheck_sys hmode hchecka, hda, fun sibling' c => ?_⟩
  rw [finshCompile, hcodea, hcodeb, finshTypeCheck_null, finshCompile_null, emit_emit]
  cases op <;>
    simp [compileNode, BinOp.nodeType, hda, Compiler.codeOp, Width.ofDataType, Instr.bytes]

/-- The operators that change a variable. -/
theorem compiles_change (x : IntVar decls) {type : NodeType} {code : List Instr}
    (htype : (type, code) ∈ [(.sysPreinc, preCode .add x.index), (.sysPredec, preCode .sub x.index),
      (.sysInc, postCode .add x.index), (.sysDec, postCode .sub x.index)]) :
    Compiles (Node.node { nodeType := type } (x.tree L .null)) (assemble L code) := by
  intro sibling errno
  refine ⟨_, _, finshTypeCheck_sys rfl (finshTypeCheck_var x _ .null errno), rfl, fun sibling' c => ?_⟩
  rw [finshCompile, finshCompile_var, finshTypeCheck_null, finshCompile_null]
  simp only [List.mem_cons, Prod.mk.injEq, List.not_mem_nil, or_false] at htype
  rcases htype with ⟨rfl, rfl⟩ | ⟨rfl, rfl⟩ | ⟨rfl, rfl⟩ | ⟨rfl, rfl⟩ <;>
    simp [childAddr, compileNode, onId, Node.data?, IntVar.checked, IntVar.symbol, NodeData.idVar,
      Symbol.self, Compiler.codePre, Compiler.codePost, Width.ofDataType, Compiler.codeConst, preCode,
      postCode, stepVar, Instr.bytes, Layout.valueAddr]

theorem Compiles.assign {tree : Node → Node} {code : List UInt8} (x : IntVar decls)
    (h : Compiles tree code) :
    Compiles (Node.node { nodeType := .sysAssign } (x.tree L (tree .null)))
      (Instr.bytes L (.ldAddr x.index) ++ code ++ assemble L [.st, .ldStack]) := by
  intro sibling errno
  obtain ⟨d, child, hcheck, -, hcode⟩ := h .null errno
  have hvar := finshTypeCheck_var (L := L) x true (tree .null) errno
  rw [hcheck] at hvar
  refine ⟨_, _, finshTypeCheck_sys rfl hvar, rfl, fun sibling' c => ?_⟩
  rw [finshCompile, finshCompile_var, if_pos rfl, hcode, finshTypeCheck_null, finshCompile_null]
  simp [compileNode, Node.data?, IntVar.checked, Compiler.codeStore, Width.ofDataType, Instr.bytes]

/-- The compiler writes the bytes of the stack code. -/
theorem compiles_tree (e : Expr decls) : Compiles (e.tree L) (assemble L e.code) := by
  induction e with
  | intLit v =>
    rw [Expr.code, assemble_singleton]
    exact compiles_literal v (.inl rfl)
  | longLit v =>
    rw [Expr.code, assemble_singleton]
    exact compiles_literal v (.inr rfl)
  | var x =>
    exact compiles_var x
  | neg e ih =>
    rw [Expr.code, assemble_append, assemble_append, assemble_singleton, assemble_singleton]
    exact .bin .sub (compiles_literal 0 (.inr rfl)) ih
  | bitwise e ih =>
    rw [Expr.code, assemble_append, assemble_singleton]
    exact ih.bitwise
  | bin op a b iha ihb =>
    rw [Expr.code, assemble_append, assemble_append, assemble_singleton]
    exact .bin op iha ihb
  | preinc x | predec x | inc x | dec x => exact compiles_change x (by simp [Expr.code])
  | assign x e ih =>
    rw [Expr.code, assemble_append, assemble_append, assemble_singleton]
    exact ih.assign x

/-- The compiler run over statements writes the bytes of their code and sets no error. -/
theorem compileStatements_eq (es : List (Expr decls)) (errno : Error) (c : Compiler) :
    (finshTypeCheck (stmtsTree L es) false errno).2 = errno ∧
      compileStatements (finshTypeCheck (stmtsTree L es) false errno).1 c =
        c.emit (assemble L (stmtsCode es)) := by
  induction es generalizing c with
  | nil => exact ⟨rfl, rfl⟩
  | cons e es ih =>
    obtain ⟨d, child, hcheck, -, hcode⟩ := compiles_tree (L := L) e (stmtsTree L es) errno
    rw [stmtsTree, hcheck]
    refine ⟨(ih c).1, ?_⟩
    rw [compileStatements, hcode, finshCompile_null, (ih _).2]
    cases es with
    | nil => simp [stmtsTree, stmtsCode, Node.isNull]
    | cons e' es =>
      obtain ⟨d', child', hcheck', -, -⟩ := compiles_tree (L := L) e' (stmtsTree L es) errno
      rw [stmtsTree, hcheck']
      simp [Node.isNull, stmtsCode, Instr.bytes]

end RtThread.Finsh
