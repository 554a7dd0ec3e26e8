-- SUMMARY: The FinSH compiler: syntax trees, type check, code.
import ZigbeeGateway.Lib.Bytecode

/-!
# FinSH compiler

`finsh_compiler.c` over one flat byte memory. A syntax tree is given by the child and sibling
links of its nodes. `finsh_type_check` decides for each node its data type and whether it stands
for an address, and `finsh_compile` writes the code of the child, of the node and of the sibling,
in this order. Nothing stops the compiler at the end of the text segment, so code that is too long
goes to whatever stands behind it.
-/

namespace RtThread.Finsh

open ByteMem

def finshStackMax : Nat := 64
def finshTextMax : Nat := 128
def finshVariableMax : Nat := 8

/-- `sizeof(struct finsh_var)`: the name, the type, two bytes of padding and the value. -/
def finshVarSize : Nat := 24

/-- The offset of `value` in a `struct finsh_var`. -/
def finshVarValue : Nat := 20

/-- Where the linker put the objects of the shell. -/
structure Layout where
  textSegment : Nat
  finshVmStack : Nat
  globalVariable : Nat
  text_lt : textSegment + finshTextMax ≤ 2 ^ 32
  stack_lt : finshVmStack + 4 * finshStackMax ≤ 2 ^ 32
  variable_lt : globalVariable + finshVarSize * finshVariableMax ≤ 2 ^ 32
  text_stack : textSegment + finshTextMax ≤ finshVmStack ∨ finshVmStack + 4 * finshStackMax ≤ textSegment
  text_variable : textSegment + finshTextMax ≤ globalVariable ∨
    globalVariable + finshVarSize * finshVariableMax ≤ textSegment
  stack_variable : finshVmStack + 4 * finshStackMax ≤ globalVariable ∨
    globalVariable + finshVarSize * finshVariableMax ≤ finshVmStack

/-! ## Syntax trees -/

/-- `enum finsh_type`. -/
inductive FinshType where
  | unknown | void | voidp | char | uchar | charp | short | ushort | shortp
  | int | uint | intp | long | ulong | longp
  deriving DecidableEq

/-- The `FINSH_NODE_*` constants. -/
inductive NodeType where
  | unknown | id
  | valueChar | valueInt | valueLong | valueString | valueNull
  | sysAdd | sysSub | sysMul | sysDiv | sysMod | sysAnd | sysOr | sysXor | sysBitwise
  | sysShl | sysShr | sysFunc | sysAssign | sysCast | sysPreinc | sysPredec | sysInc | sysDec
  | sysGetvalue | sysGetaddr | sysNull
  deriving DecidableEq

/-- The `FINSH_ERROR_*` constants. -/
inductive Error where
  | ok | invalidToken | expectType | unknownType | variableExist | expectOperator | memoryFull
  | unknownOp | unknownNode | expectChar | unexpectEnd | unknownToken | noFloat | unknownSymbol
  | nullNode
  deriving DecidableEq

/-- What an identifier refers to, with the bits `FINSH_IDTYPE_VAR`, `FINSH_IDTYPE_SYSVAR` and
`FINSH_IDTYPE_SYSCALL`. `self` is the address of the entry in its table. -/
inductive Symbol where
  | var (self : Nat) (type : FinshType)
  | sysvar (self : Nat) (type : FinshType) (var : Nat)
  | syscall (self : Nat) (func : Nat)

/-- The pointer in the union `id`, read as a `struct finsh_var*`. -/
def Symbol.self : Symbol → Nat
  | .var self _ => self
  | .sysvar self _ _ => self
  | .syscall self _ => self

/-- The fields of a `struct finsh_node` other than its links. The flag `address` is the bit
`FINSH_IDTYPE_ADDRESS`. -/
structure NodeData where
  nodeType : NodeType
  dataType : Nat := 0
  address : Bool := false
  value : BitVec 32 := 0
  id : Option Symbol := none

/-- A node with its child and its sibling. -/
inductive Node where
  | null
  | node (data : NodeData) (child sibling : Node)

namespace Node

def data? : Node → Option NodeData
  | null => none
  | node data _ _ => some data

def isNull : Node → Bool
  | null => true
  | node .. => false

def sibling : Node → Node
  | null => null
  | node _ _ sibling => sibling

/-- The length of the chain of siblings from a node on. -/
def siblings : Node → Nat
  | null => 0
  | node _ _ sibling => sibling.siblings + 1

end Node

/-! ## Widths and opcodes -/

/-- The three widths that operations come in. -/
inductive Width where
  | byte | word | dword
  deriving DecidableEq

def Width.bytes : Width → Nat
  | .byte => 1
  | .word => 2
  | .dword => 4

/-- The width of a data type: `FINSH_DATA_TYPE_BYTE`, `_WORD` and `_DWORD`. -/
def Width.ofDataType : Nat → Option Width
  | 0x01 => some .byte
  | 0x02 => some .word
  | 0x03 => some .dword
  | _ => none

/-- The data type that `finsh_type_check` gives to a variable. -/
def FinshType.dataType : FinshType → Option Nat
  | .void => some 0x00
  | .char | .uchar => some 0x01
  | .short | .ushort => some 0x02
  | .int | .uint | .long | .ulong => some 0x03
  | .charp | .voidp | .shortp | .intp | .longp => some 0x03
  | .unknown => none

/-- The width at which `finsh_compile` loads a variable. It knows no `void*`. -/
def FinshType.width : FinshType → Option Width
  | .char | .uchar => some .byte
  | .short | .ushort => some .word
  | .int | .uint | .long | .ulong | .charp | .shortp | .intp | .longp => some .dword
  | .void | .voidp | .unknown => none

/-- The operators with two operands. -/
inductive BinOp where
  | add | sub | div | mod | mul | and | or | xor | shl | shr
  deriving DecidableEq

namespace Op

/-- The opcodes of an operation at the three widths. -/
def at_ (b w d : UInt8) : Width → UInt8
  | .byte => b
  | .word => w
  | .dword => d

def noop : UInt8 := 0x00

def bin : BinOp → Width → UInt8
  | .add => at_ 0x01 0x02 0x03
  | .sub => at_ 0x04 0x05 0x06
  | .div => at_ 0x07 0x08 0x09
  | .mod => at_ 0x0A 0x0B 0x0C
  | .mul => at_ 0x0D 0x0E 0x0F
  | .and => at_ 0x10 0x11 0x12
  | .or => at_ 0x13 0x14 0x15
  | .xor => at_ 0x16 0x17 0x18
  | .shl => at_ 0x1C 0x1D 0x1E
  | .shr => at_ 0x1F 0x20 0x21

def bitwise : Width → UInt8 := at_ 0x19 0x1A 0x1B
def ld : Width → UInt8 := at_ 0x22 0x23 0x24
def ldValue : Width → UInt8 := at_ 0x25 0x26 0x27
def st : Width → UInt8 := at_ 0x28 0x29 0x2A
def pop : UInt8 := 0x2B
def syscall : UInt8 := 0x2C
def ldValueStack : Width → UInt8 := at_ 0x2D 0x2E 0x2F

end Op

/-! ## Type check -/

/-- Whether the child of a node is checked as an address. -/
def childAddr (type : NodeType) (isAddr : Bool) : Bool :=
  match type with
  | .sysAssign | .sysPreinc | .sysPredec | .sysGetaddr => true
  -- In an address the pointer itself is the value, and outside of one `isAddr` is false.
  | .sysGetvalue => false
  | _ => isAddr

/-- The data type and the error of a node without a child. -/
def leafType (d : NodeData) (errno : Error) : NodeData × Error :=
  match d.nodeType, d.id with
  | .id, some (.var _ type) | .id, some (.sysvar _ type _) =>
    match type.dataType with
    | some dataType => ({ d with dataType }, errno)
    | none => (d, .unknownType)
  | .valueChar, _ => ({ d with dataType := 0x01 }, errno)
  | .valueInt, _ | .valueLong, _ | .valueString, _ | .valueNull, _ =>
    ({ d with dataType := 0x03 }, errno)
  | _, _ => (d, errno)

/-- `node->idtype |= is_addr`, except for system calls. -/
def markAddr (d : NodeData) (isAddr : Bool) : NodeData :=
  match d.id with
  | some (.syscall _ _) => d
  | _ => { d with address := d.address || isAddr }

/-- `finsh_type_check`. -/
def finshTypeCheck : Node → Bool → Error → Node × Error
  | .null, _, errno => (.null, errno)
  | .node d child sibling, isAddr, errno =>
    let (child, errno) := finshTypeCheck child (childAddr d.nodeType isAddr) errno
    let (sibling, errno) := finshTypeCheck sibling false errno
    let d := markAddr d isAddr
    match child.data? with
    | some dc => (.node { d with dataType := dc.dataType } child sibling, errno)
    | none =>
      let (d, errno) := leafType d errno
      (.node d child sibling, errno)

/-! ## Code -/

/-- The memory, `finsh_compile_pc` and `global_errno`. -/
structure Compiler where
  mem : Nat → UInt8
  pc : Nat
  errno : Error

namespace Compiler

/-- `finsh_code_byte`. -/
def codeByte (x : UInt8) (c : Compiler) : Compiler :=
  { c with mem := Function.update c.mem c.pc x, pc := c.pc + 1 }

/-- `finsh_code_word`. -/
def codeWord (x : Nat) (c : Compiler) : Compiler :=
  { c with mem := store c.mem c.pc 2 x, pc := c.pc + 2 }

/-- `finsh_code_dword`. -/
def codeDword (x : Nat) (c : Compiler) : Compiler :=
  { c with mem := store c.mem c.pc 4 x, pc := c.pc + 4 }

/-- A constant at one of the three widths. -/
def codeConst (x : Nat) : Width → Compiler → Compiler
  | .byte => codeByte (UInt8.ofNat x)
  | .word => codeWord x
  | .dword => codeDword x

def finshErrorSet (errno : Error) (c : Compiler) : Compiler :=
  { c with errno }

/-- An identifier: the address of its value, or the value. -/
def codeId (type : FinshType) (address : Bool) (a : Nat) (c : Compiler) : Compiler :=
  match type.width with
  | some w => (c.codeByte (if address then Op.ld .dword else Op.ldValue w)).codeDword a
  | none => c

/-- One opcode, at the width of the data type of the node. -/
def codeOp (opcode : Width → UInt8) (dataType : Nat) (c : Compiler) : Compiler :=
  match Width.ofDataType dataType with
  | some w => c.codeByte (opcode w)
  | none => c

/-- Store to the address below the top, then load the value again. -/
def codeStore (dataType : Nat) (c : Compiler) : Compiler :=
  match Width.ofDataType dataType with
  | some w => (c.codeByte (Op.st w)).codeByte (Op.ldValueStack w)
  | none => c.finshErrorSet .unknownType

/-- `++v` and `--v`. The address of the variable is on the stack already. The value is loaded
again as a long, whatever the width is. -/
def codePre (op : BinOp) (var dataType : Nat) (c : Compiler) : Compiler :=
  match Width.ofDataType dataType with
  | some w =>
    let c := (c.codeByte (Op.ldValue w)).codeDword (var + finshVarValue)
    let c := (c.codeByte (Op.ld w)).codeConst 1 w
    let c := (c.codeByte (Op.bin op w)).codeByte (Op.st w)
    c.codeByte (Op.ldValueStack .dword)
  | none => c

/-- `v++` and `v--`. The old value is on the stack already. -/
def codePost (op : BinOp) (var dataType : Nat) (c : Compiler) : Compiler :=
  match Width.ofDataType dataType with
  | some w =>
    let c := (c.codeByte (Op.ld .dword)).codeDword (var + finshVarValue)
    let c := (c.codeByte (Op.ldValue w)).codeDword (var + finshVarValue)
    let c := (c.codeByte (Op.ld w)).codeConst 1 w
    let c := (c.codeByte (Op.bin op w)).codeByte (Op.st w)
    c.codeByte Op.pop
  | none => c

end Compiler

/-- The pointer `id.var` of a node. It is a null pointer in a node that is no identifier. -/
def NodeData.idVar (d : NodeData) : Nat :=
  match d.id with
  | some symbol => symbol.self
  | none => 0

/-- Code that is written only if the child is an identifier. -/
def onId (child : Node) (code : NodeData → Compiler → Compiler) (c : Compiler) : Compiler :=
  match child.data? with
  | some dc => if dc.nodeType = .id then code dc c else c
  | none => c

/-- The code of the node itself, the `switch` of `finsh_compile`. -/
def compileNode (d : NodeData) (child : Node) (c : Compiler) : Compiler :=
  match d.nodeType with
  | .id =>
    match d.id with
    | some (.syscall _ func) => (c.codeByte (Op.ld .dword)).codeDword func
    | some (.sysvar _ type var) => c.codeId type d.address var
    | some (.var self type) => c.codeId type d.address (self + finshVarValue)
    | none => c
  | .valueChar => (c.codeByte (Op.ld .byte)).codeByte (UInt8.ofNat d.value.toNat)
  | .valueInt | .valueLong => (c.codeByte (Op.ld .dword)).codeDword d.value.toNat
  | .valueNull | .valueString => (c.codeByte (Op.ld .dword)).codeDword d.value.toNat
  | .sysAdd => c.codeOp (Op.bin .add) d.dataType
  | .sysSub => c.codeOp (Op.bin .sub) d.dataType
  | .sysMul => c.codeOp (Op.bin .mul) d.dataType
  | .sysDiv => c.codeOp (Op.bin .div) d.dataType
  | .sysMod => c.codeOp (Op.bin .mod) d.dataType
  | .sysAnd => c.codeOp (Op.bin .and) d.dataType
  | .sysOr => c.codeOp (Op.bin .or) d.dataType
  | .sysXor => c.codeOp (Op.bin .xor) d.dataType
  | .sysBitwise => c.codeOp Op.bitwise d.dataType
  | .sysShl => c.codeOp (Op.bin .shl) d.dataType
  | .sysShr => c.codeOp (Op.bin .shr) d.dataType
  | .sysFunc =>
    if child.isNull then c
    else (c.codeByte Op.syscall).codeByte (UInt8.ofNat child.sibling.siblings)
  | .sysAssign =>
    match child.data? with
    | some dc =>
      if dc.nodeType = .id then c.codeStore dc.dataType
      else if dc.nodeType = .sysGetvalue then c.codeStore (dc.dataType % 16)
      else c
    -- The parser refuses an assignment without a left side.
    | none => c
  | .sysPreinc => onId child (fun dc => Compiler.codePre .add dc.idVar d.dataType) c
  | .sysPredec => onId child (fun dc => Compiler.codePre .sub dc.idVar d.dataType) c
  | .sysInc => onId child (fun dc => Compiler.codePost .add dc.idVar d.dataType) c
  | .sysDec => onId child (fun dc => Compiler.codePost .sub dc.idVar d.dataType) c
  | .sysNull => c.codeDword 0
  | .sysGetvalue => if d.address then c else c.codeOp Op.ldValueStack d.dataType
  | .sysGetaddr => c
  | .unknown | .sysCast => c.finshErrorSet .unknownNode

/-- `finsh_compile`. -/
def finshCompile : Node → Compiler → Compiler
  | .null, c => c
  | .node d child sibling, c =>
    finshCompile sibling (compileNode d child (finshCompile child c))

/-- The loop of `finsh_compiler_run`: each statement without its sibling, and between two
statements the value of the first one is dropped. -/
def compileStatements : Node → Compiler → Compiler
  | .null, c => c
  | .node d child sibling, c =>
    let c := finshCompile (.node d child .null) c
    compileStatements sibling (if sibling.isNull then c else c.codeByte Op.pop)

/-- `finsh_compiler_run`. -/
def finshCompilerRun (L : Layout) (mem : Nat → UInt8) (errno : Error) (node : Node) : Compiler :=
  let (node, errno) := finshTypeCheck node false errno
  let mem := writeBytes mem L.textSegment (List.replicate finshTextMax 0)
  let mem := writeBytes mem L.finshVmStack (List.replicate 4 0)
  compileStatements node { mem, pc := L.textSegment, errno }

end RtThread.Finsh
