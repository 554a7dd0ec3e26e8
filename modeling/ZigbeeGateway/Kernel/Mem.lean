-- SUMMARY: The system heap of mem.c over a byte memory.
import ZigbeeGateway.Lib.ByteMem
import ZigbeeGateway.Lib.Run
import ZigbeeGateway.Kernel.Kservice
import ZigbeeGateway.Kernel.Timer

/-!
# The system heap

The heap of `src/mem.c` is a region of memory that block headers cut into blocks. A header
holds the offsets of its two neighbours, so `next` and `prev` count from `heap_ptr`, while
`lfree`, `heap_end` and the pointers that callers get are addresses. The headers lie in the same
bytes as the data of the callers, so the model keeps one byte memory for both of them.

Numbers of type `rt_size_t` wrap at `2 ^ 32`. A pointer into the heap is `heap_ptr` plus an
offset, without a wrap. What the hooks, the log and `heap_sem` do is left out: a critical section
of `heap_sem` is one step.
-/

namespace RtThread

open Run Word ByteMem

/-- The fields of `struct heap_mem`. -/
inductive Field where
  | magic
  | used
  | next
  | prev
  deriving DecidableEq, Repr

def Field.offset : Field → Nat
  | .magic => 0
  | .used => 2
  | .next => 4
  | .prev => 8

/-- The number of bytes of a field: two for an `rt_uint16_t` and four for an `rt_size_t`. -/
def Field.width : Field → Nat
  | .magic => 2
  | .used => 2
  | .next => 4
  | .prev => 4

/-- The memory and the static variables of `mem.c`. -/
structure Heap where
  mem : Nat → UInt8
  heapPtr : Nat
  heapEnd : Nat
  lfree : Nat
  memSizeAligned : Nat
  usedMem : Nat
  maxMem : Nat

namespace Heap

/-- `HEAP_MAGIC`. -/
def heapMagic : Nat := 0x1ea0

/-- `MIN_SIZE` and `MIN_SIZE_ALIGNED`. -/
def minSizeAligned : Nat := 12

/-- `SIZEOF_STRUCT_MEM`. -/
def sizeofStructMem : Nat := 12

/-- `mem->field`. -/
def get (h : Heap) (field : Field) (mem : Nat) : Nat := load h.mem (mem + field.offset) field.width

/-- `mem->field = value`. -/
def set (h : Heap) (field : Field) (mem value : Nat) : Heap :=
  { h with mem := store h.mem (mem + field.offset) field.width value }

/-- Initialize the start and the end of the heap. -/
def initHeaders (h : Heap) : Heap :=
  let next := h.memSizeAligned + sizeofStructMem
  let h := h.set .magic h.heapPtr heapMagic
  let h := h.set .next h.heapPtr next
  let h := h.set .prev h.heapPtr 0
  let h := h.set .used h.heapPtr 0
  let h := h.set .magic h.heapEnd heapMagic
  let h := h.set .used h.heapEnd 1
  let h := h.set .next h.heapEnd next
  h.set .prev h.heapEnd next

/-- `rt_system_heap_init` over a memory with any contents. The statistics are static variables and
start from zero. The result is `none` when the region is too small. -/
def rtSystemHeapInit (mem : Nat → UInt8) (beginAddr endAddr : Nat) : Option Heap :=
  let beginAlign := rtAlign beginAddr
  let endAlign := rtAlignDown endAddr
  if 2 * sizeofStructMem < endAlign ∧ beginAlign ≤ endAlign - 2 * sizeofStructMem then
    let memSizeAligned := endAlign - beginAlign - 2 * sizeofStructMem
    let h : Heap := {
      mem := mem
      heapPtr := beginAlign
      heapEnd := beginAlign + (memSizeAligned + sizeofStructMem)
      lfree := beginAlign
      memSizeAligned := memSizeAligned
      usedMem := 0
      maxMem := 0 }
    some h.initHeaders
  else
    none

/-- The first half of `plug_holes`: combine a free block with the one after it. -/
def plugForward (h : Heap) (mem : Nat) : Heap :=
  let nmem := h.heapPtr + h.get .next mem
  if mem ≠ nmem ∧ h.get .used nmem = 0 ∧ nmem ≠ h.heapEnd then
    let h := if h.lfree = nmem then { h with lfree := mem } else h
    let h := h.set .next mem (h.get .next nmem)
    h.set .prev (h.heapPtr + h.get .next nmem) (mem - h.heapPtr)
  else
    h

/-- The second half: combine it with the one before it. -/
def plugBackward (h : Heap) (mem : Nat) : Heap :=
  let pmem := h.heapPtr + h.get .prev mem
  if pmem ≠ mem ∧ h.get .used pmem = 0 then
    let h := if h.lfree = mem then { h with lfree := pmem } else h
    let h := h.set .next pmem (h.get .next mem)
    h.set .prev (h.heapPtr + h.get .next mem) (pmem - h.heapPtr)
  else
    h

/-- `plug_holes`. -/
def plugHoles (h : Heap) (mem : Nat) : Option Heap := do
  rtAssert (h.heapPtr ≤ mem)
  rtAssert (mem < h.heapEnd)
  rtAssert (h.get .used mem = 0)
  return (h.plugForward mem).plugBackward mem

/-- The size of the data of the block at the offset `ptr`, as `rt_malloc` computes it. -/
def dataSize (h : Heap) (ptr : Nat) : Nat :=
  sub32 (h.get .next (h.heapPtr + ptr)) (add32 ptr sizeofStructMem)

/-- The search loop of `rt_malloc`, for at most `fuel` blocks. The result is `none` when the fuel
runs out, and `some none` when the loop ends without a block. -/
def searchLoop (h : Heap) (size : Nat) : Nat → Nat → Option (Option Nat)
  | 0, ptr => if ptr < sub32 h.memSizeAligned size then none else some none
  | fuel + 1, ptr =>
    if ptr < sub32 h.memSizeAligned size then
      if h.get .used (h.heapPtr + ptr) = 0 ∧ size ≤ h.dataSize ptr then
        some (some ptr)
      else
        searchLoop h size fuel (h.get .next (h.heapPtr + ptr))
    else
      some none

/-- Insert a free block at `ptr2` between the block at `ptr` and the one after it. -/
def insertFree (h : Heap) (ptr ptr2 : Nat) : Heap :=
  let mem := h.heapPtr + ptr
  let mem2 := h.heapPtr + ptr2
  let h := h.set .used mem2 0
  let h := h.set .next mem2 (h.get .next mem)
  let h := h.set .prev mem2 ptr
  h.set .next mem ptr2

/-- Write the back link of the block after the one at `ptr2`, except to the end of the heap. -/
def linkBack (h : Heap) (ptr2 : Nat) : Heap :=
  let next := h.get .next (h.heapPtr + ptr2)
  if next ≠ add32 h.memSizeAligned sizeofStructMem then
    h.set .prev (h.heapPtr + next) ptr2
  else
    h

/-- The statistics after `n` more bytes are in use. -/
def countUsed (h : Heap) (n : Nat) : Heap :=
  let usedMem := add32 h.usedMem n
  { h with usedMem := usedMem, maxMem := if h.maxMem < usedMem then usedMem else h.maxMem }

/-- The body of the search loop: take the block at `ptr`, split it when the rest can hold a block of
its own, and set its magic. -/
def takeBlock (h : Heap) (ptr size : Nat) : Heap :=
  let mem := h.heapPtr + ptr
  let h :=
    if add32 (add32 size sizeofStructMem) minSizeAligned ≤ h.dataSize ptr then
      let ptr2 := add32 (add32 ptr sizeofStructMem) size
      let h := h.insertFree ptr ptr2
      let h := h.set .used mem 1
      let h := h.linkBack ptr2
      h.countUsed (add32 size sizeofStructMem)
    else
      let h := h.set .used mem 1
      h.countUsed (sub32 (h.get .next mem) ptr)
  h.set .magic mem heapMagic

/-- The loop that moves `lfree` to the next free block, for at most `fuel` blocks. -/
def nextFree (h : Heap) : Nat → Nat → Option Nat
  | 0, lfree => if h.get .used lfree ≠ 0 ∧ lfree ≠ h.heapEnd then none else some lfree
  | fuel + 1, lfree =>
    if h.get .used lfree ≠ 0 ∧ lfree ≠ h.heapEnd then
      nextFree h fuel (h.heapPtr + h.get .next lfree)
    else
      some lfree

/-- Find a new `lfree` when the block at `mem` was the lowest free one. -/
def updateLfree (h : Heap) (mem : Nat) : Option Heap :=
  if mem = h.lfree then do
    let lfree ← h.nextFree h.memSizeAligned h.lfree
    rtAssert (lfree = h.heapEnd ∨ h.get .used lfree = 0)
    return { h with lfree := lfree }
  else
    some h

/-- What `rt_malloc` does with the block it has found. -/
def allocate (h : Heap) (ptr size : Nat) : Option (Heap × Option Nat) := do
  let mem := h.heapPtr + ptr
  let h ← (h.takeBlock ptr size).updateLfree mem
  rtAssert (mem + sizeofStructMem + size ≤ h.heapEnd)
  rtAssert ((mem + sizeofStructMem) % 4 = 0)
  rtAssert (mem &&& 3 = 0)
  return (h, some (mem + sizeofStructMem))

/-- `rt_malloc`. -/
def rtMalloc (h : Heap) (size : Nat) : Option (Heap × Option Nat) :=
  if size = 0 then
    some (h, none)
  else
    let size := rtAlign size
    if h.memSizeAligned < size then
      some (h, none)
    else do
      let size := if size < minSizeAligned then minSizeAligned else size
      match ← h.searchLoop size h.memSizeAligned (h.lfree - h.heapPtr) with
      | none => return (h, none)
      | some ptr => h.allocate ptr size

/-- The part of `rt_free` that takes the block out of use. -/
def markFree (h : Heap) (mem : Nat) : Heap :=
  let h := h.set .used mem 0
  let h := h.set .magic mem 0
  let h := if mem < h.lfree then { h with lfree := mem } else h
  { h with usedMem := sub32 h.usedMem (sub32 (h.get .next mem) (mem - h.heapPtr)) }

/-- `rt_free`. -/
def rtFree (h : Heap) : Option Nat → Option Heap
  | none => some h
  | some rmem => do
    rtAssert (rmem &&& 3 = 0)
    rtAssert (h.heapPtr ≤ rmem ∧ rmem < h.heapEnd)
    let mem := rmem - sizeofStructMem
    rtAssert (h.get .used mem ≠ 0)
    rtAssert (h.get .magic mem = heapMagic)
    (h.markFree mem).plugHoles mem

/-- How the first critical section of `rt_realloc` ends: with a result, or with the sizes for the
move to a new block. -/
inductive Resized where
  | returned (result : Option Nat)
  | move (rmem size newsize : Nat)
  deriving DecidableEq, Repr

/-- The branch of `rt_realloc` that splits the block. -/
def shrink (h : Heap) (ptr size newsize : Nat) : Option Heap :=
  let h := { h with usedMem := sub32 h.usedMem (sub32 size newsize) }
  let ptr2 := add32 (add32 ptr sizeofStructMem) newsize
  let h := h.set .magic (h.heapPtr + ptr2) heapMagic
  let h := h.insertFree ptr ptr2
  let h := h.linkBack ptr2
  h.plugHoles (h.heapPtr + ptr2)

/-- `rt_realloc` up to the call of `rt_malloc` that makes room for a move. -/
def rtRealloc (h : Heap) (rmem : Option Nat) (newsize : Nat) : Option (Heap × Resized) :=
  let newsize := rtAlign newsize
  if h.memSizeAligned < newsize then
    some (h, .returned none)
  else
    match rmem with
    | none => (h.rtMalloc newsize).map fun (h, result) => (h, .returned result)
    | some rmem =>
      if rmem < h.heapPtr ∨ h.heapEnd ≤ rmem then
        some (h, .returned (some rmem))
      else
        let mem := rmem - sizeofStructMem
        let ptr := mem - h.heapPtr
        let size := sub32 (sub32 (h.get .next mem) ptr) sizeofStructMem
        if size = newsize then
          some (h, .returned (some rmem))
        else if add32 (add32 newsize sizeofStructMem) minSizeAligned < size then
          (h.shrink ptr size newsize).map fun h => (h, .returned (some rmem))
        else
          some (h, .move rmem size newsize)

/-- The three values of `rt_memory_info`. -/
structure MemoryInfo where
  total : Nat
  used : Nat
  maxUsed : Nat
  deriving DecidableEq, Repr

/-- `rt_memory_info`. -/
def rtMemoryInfo (h : Heap) : MemoryInfo where
  total := h.memSizeAligned
  used := h.usedMem
  maxUsed := h.maxMem

/-- One byte that is written. -/
def write (h : Heap) (a : Nat) (v : UInt8) : Heap := { h with mem := Function.update h.mem a v }

end Heap

/-! ## Callers -/

namespace Mem

/-- Where a thread is in `rt_calloc` or `rt_realloc` when it is not in a critical section. -/
inductive Call where
  | idle
  /-- In `rt_calloc`: `rt_memset(p, 0, n)` has written `i` bytes. -/
  | zeroing (p n i : Nat)
  /-- In `rt_realloc`: before `rt_malloc(newsize)`. -/
  | expanding (rmem size newsize : Nat)
  /-- In `rt_realloc`: `rt_memcpy(nmem, rmem, n)` has written `i` bytes, and `rt_free(rmem)` follows. -/
  | copying (rmem nmem n i : Nat)
  deriving DecidableEq, Repr

/-- A call can go on. The pointer that `rt_realloc` frees at its end is still live. -/
def Call.MayAdvance (live : List Nat) : Call → Prop
  | .idle => False
  | .zeroing _ _ _ => True
  | .expanding _ _ _ => True
  | .copying rmem _ n i => i < n ∨ rmem ∈ live

instance (live : List Nat) : (c : Call) → Decidable (c.MayAdvance live)
  | .idle => .isFalse id
  | .zeroing _ _ _ => .isTrue trivial
  | .expanding _ _ _ => .isTrue trivial
  | .copying rmem _ n i => inferInstanceAs (Decidable (i < n ∨ rmem ∈ live))

/-- What a thread `t` can do. `advance` is the next step of its call, and `write` is the write of a
byte to a block by the code that got the block. -/
inductive Event where
  | malloc (size : Nat)
  | calloc (t count size : Nat)
  | realloc (t : Nat) (rmem : Option Nat) (newsize : Nat)
  | free (rmem : Option Nat)
  | advance (t : Nat)
  | write (p i : Nat) (v : UInt8)
  deriving DecidableEq, Repr

/-- The heap, the pointers that callers got and did not free, and the calls of the threads. A new
block belongs to the call until the call returns. -/
structure Sys where
  heap : Heap
  live : List Nat
  call : Nat → Call

namespace Sys

def start (h : Heap) : Sys where
  heap := h
  live := []
  call _ := .idle

def setCall (s : Sys) (t : Nat) (c : Call) : Sys := { s with call := Function.update s.call t c }

/-- A function returns a pointer. -/
def handOut (s : Sys) : Option Nat → Sys
  | none => s
  | some p => { s with live := s.live.insert p }

/-- The callers pass pointers that are live, and write inside the data of their blocks. -/
def Allowed (s : Sys) : Event → Prop
  | .malloc _ => True
  | .calloc t _ _ => s.call t = .idle
  | .realloc t rmem _ => s.call t = .idle ∧ ∀ p ∈ rmem, p ∈ s.live
  | .free rmem => ∀ p ∈ rmem, p ∈ s.live
  | .advance t => (s.call t).MayAdvance s.live
  | .write p i _ => p ∈ s.live ∧ i < s.heap.dataSize (p - Heap.sizeofStructMem - s.heap.heapPtr)

instance (s : Sys) (e : Event) : Decidable (s.Allowed e) := by
  cases e <;> unfold Allowed <;> infer_instance

/-- `rt_calloc` up to `rt_memset`. -/
def calloc (s : Sys) (t count size : Nat) : Option Sys := do
  let (h, result) ← s.heap.rtMalloc (mul32 count size)
  let s := { s with heap := h }
  return match result with
  | none => s
  | some p => s.setCall t (.zeroing p (mul32 count size) 0)

/-- The first critical section of `rt_realloc`. -/
def realloc (s : Sys) (t : Nat) (rmem : Option Nat) (newsize : Nat) : Option Sys := do
  let (h, resized) ← s.heap.rtRealloc rmem newsize
  let s := { s with heap := h }
  return match resized with
  | .returned result => s.handOut result
  | .move rmem size newsize => s.setCall t (.expanding rmem size newsize)

def free (s : Sys) (rmem : Option Nat) : Option Sys :=
  (s.heap.rtFree rmem).map fun h => { s with heap := h, live := rmem.elim s.live s.live.erase }

/-- The next step of a call. -/
def advance (s : Sys) (t : Nat) : Option Sys :=
  match s.call t with
  | .idle => none
  | .zeroing p n i =>
    if i < n then
      some ({ s with heap := s.heap.write (p + i) 0 }.setCall t (.zeroing p n (i + 1)))
    else
      some ((s.setCall t .idle).handOut (some p))
  | .expanding rmem size newsize => do
    let (h, result) ← s.heap.rtMalloc newsize
    let s := { s with heap := h }
    return match result with
    | none => s.setCall t .idle
    | some nmem => s.setCall t (.copying rmem nmem (if size < newsize then size else newsize) 0)
  | .copying rmem nmem n i =>
    if i < n then
      some ({ s with heap := s.heap.write (nmem + i) (s.heap.mem (rmem + i)) }.setCall t
        (.copying rmem nmem n (i + 1)))
    else
      (s.free (some rmem)).map fun s => (s.setCall t .idle).handOut (some nmem)

/-- One step of the code. The result is `none` when an assertion fails. -/
def exec (s : Sys) : Event → Option Sys
  | .malloc size => (s.heap.rtMalloc size).map fun (h, result) =>
      { s with heap := h }.handOut result
  | .calloc t count size => s.calloc t count size
  | .realloc t rmem newsize => s.realloc t rmem newsize
  | .free rmem => s.free rmem
  | .advance t => s.advance t
  | .write p i v => some { s with heap := s.heap.write (p + i) v }

end Sys

def step (s : Sys) (e : Event) : Option Sys := if s.Allowed e then s.exec e else none

end Mem

end RtThread
