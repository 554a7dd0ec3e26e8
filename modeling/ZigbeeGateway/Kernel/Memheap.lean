-- SUMMARY: The memory heaps of memheap.c over a byte memory.
import ZigbeeGateway.Lib.ByteMem
import ZigbeeGateway.Lib.Run
import ZigbeeGateway.Kernel.Kservice
import ZigbeeGateway.Kernel.Timer

/-!
# Memory heaps

A heap of `src/memheap.c` is a pool that item headers cut into blocks. The headers are on two
intrusive lists: `next` and `prev` link all blocks of the pool, in the order of their addresses and
round the pool, and `next_free` and `prev_free` link the free ones behind `free_header`. A small
used block at the end of the pool, the tailer, stops the merging. The headers lie in the same bytes
as the data of the callers, so the model keeps one byte memory for both of them.

Numbers and pointers have 32 bits and wrap. The log is left out, and so is `lock`: a call is one
step.
-/

namespace RtThread

open Run Word ByteMem

/-- The memory and the fields of `struct rt_memheap`. Its address is `addr`. -/
structure Memheap where
  mem : Nat → UInt8
  addr : Nat
  startAddr : Nat
  poolSize : Nat
  availableSize : Nat
  maxUsedSize : Nat
  blockList : Nat
  freeList : Nat

namespace Memheap

/-- The fields of `struct rt_memheap_item`. -/
inductive Field where
  | magic
  | poolPtr
  | next
  | prev
  | nextFree
  | prevFree
  deriving DecidableEq, Repr

def Field.offset : Field → Nat
  | .magic => 0
  | .poolPtr => 4
  | .next => 8
  | .prev => 12
  | .nextFree => 16
  | .prevFree => 20

/-- `RT_MEMHEAP_MAGIC`. -/
def memheapMagic : Nat := 0x1ea01ea0

/-- `RT_MEMHEAP_MASK`. -/
def memheapMask : Nat := 0xfffffffe

/-- `RT_MEMHEAP_USED`. -/
def memheapUsed : Nat := 0x01

/-- `RT_MEMHEAP_MINIALLOC`. -/
def memheapMinialloc : Nat := 12

/-- `RT_MEMHEAP_SIZE`. -/
def memheapSize : Nat := 24

/-- `item->field`. -/
def get (h : Memheap) (field : Field) (item : Nat) : Nat := load h.mem (item + field.offset) 4

/-- `item->field = value`. -/
def set (h : Memheap) (field : Field) (item value : Nat) : Memheap :=
  { h with mem := store h.mem (item + field.offset) 4 value }

/-- `RT_MEMHEAP_IS_USED`. -/
def IsUsed (h : Memheap) (item : Nat) : Prop := h.get .magic item &&& memheapUsed ≠ 0

instance (h : Memheap) (item : Nat) : Decidable (h.IsUsed item) :=
  inferInstanceAs (Decidable (_ ≠ _))

/-- `MEMITEM_SIZE`. -/
def memitemSize (h : Memheap) (item : Nat) : Nat :=
  sub32 (sub32 (h.get .next item) item) memheapSize

/-- The size that is asked for, rounded up. -/
def roundSize (size : Nat) : Nat :=
  if rtAlign size < memheapMinialloc then memheapMinialloc else rtAlign size

/-! ## The two lists -/

/-- Insert an item behind the header of the free list. -/
def insertFree (h : Memheap) (item : Nat) : Memheap :=
  let h := h.set .nextFree item (h.get .nextFree h.freeList)
  let h := h.set .prevFree item h.freeList
  let h := h.set .prevFree (h.get .nextFree h.freeList) item
  h.set .nextFree h.freeList item

/-- Remove an item from the free list. -/
def removeFree (h : Memheap) (item : Nat) : Memheap :=
  let h := h.set .prevFree (h.get .nextFree item) (h.get .prevFree item)
  h.set .nextFree (h.get .prevFree item) (h.get .nextFree item)

/-- `item->next_free = item->prev_free = RT_NULL`. -/
def clearFree (h : Memheap) (item : Nat) : Memheap :=
  (h.set .nextFree item 0).set .prevFree item 0

/-- Build a free item at `newPtr` and put it behind `headerPtr` on the block list. -/
def insertBlock (h : Memheap) (headerPtr newPtr : Nat) : Memheap :=
  let h := h.set .magic newPtr memheapMagic
  let h := h.set .poolPtr newPtr h.addr
  let h := h.set .prev newPtr headerPtr
  let h := h.set .next newPtr (h.get .next headerPtr)
  let h := h.set .prev (h.get .next headerPtr) newPtr
  h.set .next headerPtr newPtr

/-- Merge an item with the free one after it. -/
def mergeNext (h : Memheap) (headerPtr : Nat) : Memheap :=
  let freePtr := h.get .next headerPtr
  let h := h.set .prev (h.get .next freePtr) headerPtr
  let h := h.set .next headerPtr (h.get .next freePtr)
  h.removeFree freePtr

/-- The available bytes after an allocation, and the largest number of used bytes. -/
def setAvailable (h : Memheap) (availableSize : Nat) : Memheap :=
  let usedSize := sub32 h.poolSize availableSize
  { h with
    availableSize := availableSize
    maxUsedSize := if h.maxUsedSize < usedSize then usedSize else h.maxUsedSize }

/-! ## rt_memheap_init -/

/-- An item that is alone on its free list. -/
def initItem (h : Memheap) (item : Nat) : Memheap :=
  let h := h.set .magic item memheapMagic
  let h := h.set .poolPtr item h.addr
  let h := h.set .next item 0
  let h := h.set .prev item 0
  let h := h.set .nextFree item item
  h.set .prevFree item item

/-- The first big block, on both lists. -/
def initBlock (h : Memheap) : Memheap :=
  let h := h.initItem h.startAddr
  let h := h.set .next h.startAddr (add32 (add32 h.startAddr h.availableSize) memheapSize)
  let h := h.set .prev h.startAddr (h.get .next h.startAddr)
  h.insertFree h.startAddr

/-- The tailer. -/
def initTail (h : Memheap) : Memheap :=
  let item := h.get .next h.startAddr
  let h := h.set .magic item (memheapMagic ||| memheapUsed)
  let h := h.set .poolPtr item h.addr
  let h := h.set .next item h.startAddr
  let h := h.set .prev item h.startAddr
  (h.set .prevFree item 0).set .nextFree item 0

/-- `rt_memheap_init` over a memory with any contents, for the heap object at `memheap` with its
`free_header` at `freeHeader`. -/
def rtMemheapInit (mem : Nat → UInt8) (memheap freeHeader startAddr size : Nat) : Memheap :=
  let poolSize := rtAlignDown size
  let availableSize := sub32 poolSize (2 * memheapSize)
  let h : Memheap := {
    mem := mem
    addr := memheap
    startAddr := startAddr
    poolSize := poolSize
    availableSize := availableSize
    maxUsedSize := sub32 poolSize availableSize
    blockList := startAddr
    freeList := freeHeader }
  (h.initItem freeHeader).initBlock.initTail

/-! ## rt_memheap_alloc -/

/-- The search loop, for at most `fuel` blocks: the block it ends at and the size that it saw last.
The result is `none` when the fuel runs out. -/
def searchLoop (h : Memheap) (size : Nat) : Nat → Nat → Nat → Option (Nat × Nat)
  | 0, headerPtr, freeSize =>
    if headerPtr ≠ h.freeList ∧ freeSize < size then none else some (headerPtr, freeSize)
  | fuel + 1, headerPtr, freeSize =>
    if headerPtr ≠ h.freeList ∧ freeSize < size then
      let freeSize := h.memitemSize headerPtr
      searchLoop h size fuel (if freeSize < size then h.get .nextFree headerPtr else headerPtr) freeSize
    else
      some (headerPtr, freeSize)

/-- Split a free block, or take it as it is. -/
def takeFree (h : Memheap) (headerPtr freeSize size : Nat) : Memheap :=
  if add32 (add32 size memheapSize) memheapMinialloc ≤ freeSize then
    let newPtr := add32 (add32 headerPtr size) memheapSize
    let h := h.insertBlock headerPtr newPtr
    let h := (h.removeFree headerPtr).clearFree headerPtr
    let h := h.insertFree newPtr
    h.setAvailable (sub32 (sub32 h.availableSize size) memheapSize)
  else
    let h := h.setAvailable (sub32 h.availableSize freeSize)
    (h.removeFree headerPtr).clearFree headerPtr

/-- `header_ptr->magic |= RT_MEMHEAP_USED`. -/
def markUsed (h : Memheap) (headerPtr : Nat) : Memheap :=
  h.set .magic headerPtr (h.get .magic headerPtr ||| memheapUsed)

/-- `rt_memheap_alloc`. -/
def rtMemheapAlloc (h : Memheap) (size : Nat) : Option (Memheap × Option Nat) :=
  let size := roundSize size
  if size < h.availableSize then do
    let (headerPtr, freeSize) ← h.searchLoop size h.poolSize (h.get .nextFree h.freeList) 0
    if size ≤ freeSize then
      return ((h.takeFree headerPtr freeSize size).markUsed headerPtr, some (add32 headerPtr memheapSize))
    else
      return (h, none)
  else
    some (h, none)

/-! ## rt_memheap_free -/

/-- Mark a block as free and count its bytes. -/
def markFree (h : Memheap) (headerPtr : Nat) : Memheap :=
  let h := h.set .magic headerPtr (h.get .magic headerPtr &&& memheapMask)
  { h with availableSize := add32 h.availableSize (h.memitemSize headerPtr) }

/-- Merge an item with the free one before it. -/
def mergePrev (h : Memheap) (headerPtr : Nat) : Memheap :=
  let h := { h with availableSize := add32 h.availableSize memheapSize }
  let h := h.set .next (h.get .prev headerPtr) (h.get .next headerPtr)
  h.set .prev (h.get .next headerPtr) (h.get .prev headerPtr)

/-- Merge an item with the one after it, if that one is free. -/
def freeNext (h : Memheap) (headerPtr : Nat) : Memheap :=
  if ¬ h.IsUsed (h.get .next headerPtr) then
    { h with availableSize := add32 h.availableSize memheapSize }.mergeNext headerPtr
  else
    h

/-- The part of `rt_memheap_free` that merges the block and puts it on the free list. -/
def release (h : Memheap) (headerPtr : Nat) : Memheap :=
  if ¬ h.IsUsed (h.get .prev headerPtr) then
    let h := h.mergePrev headerPtr
    h.freeNext (h.get .prev headerPtr)
  else
    (h.freeNext headerPtr).insertFree headerPtr

/-- `rt_memheap_free`. The heap that the item names is this one. -/
def rtMemheapFree (h : Memheap) : Option Nat → Option Memheap
  | none => some h
  | some ptr => do
    let headerPtr := sub32 ptr memheapSize
    rtAssert (h.get .magic headerPtr &&& memheapMask = memheapMagic)
    rtAssert (h.get .poolPtr headerPtr = h.addr)
    return (h.markFree headerPtr).release headerPtr

/-! ## rt_memheap_realloc -/

/-- Remove an item from the block list. -/
def removeBlock (h : Memheap) (item : Nat) : Memheap :=
  let h := h.set .prev (h.get .next item) (h.get .prev item)
  h.set .next (h.get .prev item) (h.get .next item)

/-- Move the start of the free block `nextPtr` to make room for `newsize` bytes before it. -/
def expand (h : Memheap) (headerPtr nextPtr ptr oldsize newsize : Nat) : Memheap :=
  let h := h.setAvailable (sub32 h.availableSize (sub32 newsize oldsize))
  let h := (h.removeFree nextPtr).removeBlock nextPtr
  let nextPtr := add32 ptr newsize
  (h.insertBlock headerPtr nextPtr).insertFree nextPtr

/-- Allocate a new block, copy the data to it and free the old one. -/
def move (h : Memheap) (ptr oldsize newsize : Nat) : Option (Memheap × Option Nat) := do
  match ← h.rtMemheapAlloc newsize with
  | (h, none) => return (h, none)
  | (h, some newPtr) =>
    let h := { h with mem := copy h.mem newPtr ptr (if oldsize < newsize then oldsize else newsize) }
    let h ← h.rtMemheapFree (some ptr)
    return (h, some newPtr)

/-- The branch of `rt_memheap_realloc` for a larger size. -/
def grow (h : Memheap) (headerPtr ptr oldsize newsize : Nat) : Option (Memheap × Option Nat) := do
  let nextPtr := h.get .next headerPtr
  rtAssert (headerPtr < nextPtr)
  if ¬ h.IsUsed nextPtr then
    rtAssert (0 < nextPtr)
    if add32 newsize memheapMinialloc < add32 (h.memitemSize nextPtr) oldsize then
      return (h.expand headerPtr nextPtr ptr oldsize newsize, some ptr)
    else
      h.move ptr oldsize newsize
  else
    h.move ptr oldsize newsize

/-- Merge the item behind a block that shrinks with the next one, if that one is free. -/
def shrinkNext (h : Memheap) (newPtr : Nat) : Memheap :=
  if ¬ h.IsUsed (h.get .next newPtr) then
    { h with availableSize := sub32 h.availableSize (h.memitemSize (h.get .next newPtr)) }.mergeNext newPtr
  else
    h

/-- Split a used block, and put the rest of it on the free list. -/
def shrink (h : Memheap) (headerPtr newsize : Nat) : Memheap :=
  let newPtr := add32 (add32 headerPtr newsize) memheapSize
  let h := (h.insertBlock headerPtr newPtr).shrinkNext newPtr
  let h := h.insertFree newPtr
  { h with availableSize := add32 h.availableSize (h.memitemSize newPtr) }

/-- `rt_memheap_realloc`. -/
def rtMemheapRealloc (h : Memheap) (ptr : Option Nat) (newsize : Nat) :
    Option (Memheap × Option Nat) :=
  if newsize = 0 then
    (h.rtMemheapFree ptr).map fun h => (h, none)
  else
    let newsize := roundSize newsize
    match ptr with
    | none => h.rtMemheapAlloc newsize
    | some ptr =>
      let headerPtr := sub32 ptr memheapSize
      let oldsize := h.memitemSize headerPtr
      if oldsize < newsize then
        h.grow headerPtr ptr oldsize newsize
      else if oldsize ≤ add32 (add32 newsize memheapSize) memheapMinialloc then
        some (h, some ptr)
      else
        some (h.shrink headerPtr newsize, some ptr)

/-- One byte that is written. -/
def write (h : Memheap) (a : Nat) (v : UInt8) : Memheap := { h with mem := Function.update h.mem a v }

/-! ## Callers -/

/-- What a caller can do. `write` is the write of a byte to a block by the code that got the block. -/
inductive Event where
  | alloc (size : Nat)
  | realloc (ptr : Option Nat) (newsize : Nat)
  | free (ptr : Option Nat)
  | write (p i : Nat) (v : UInt8)
  deriving DecidableEq, Repr

/-- The heap, and the pointers that callers got and did not free, with the sizes that they asked
for. -/
structure Sys where
  heap : Memheap
  live : List (Nat × Nat)

namespace Sys

def IsLive (s : Sys) (p : Nat) : Prop := p ∈ s.live.map Prod.fst

instance (s : Sys) (p : Nat) : Decidable (s.IsLive p) := inferInstanceAs (Decidable (_ ∈ _))

/-- The callers ask for sizes that can be rounded up, pass pointers that are live, and write inside
the data of their blocks. The bound for `rt_memheap_realloc` is lower because that function adds
`RT_MEMHEAP_MINIALLOC` to the size. -/
def Allowed (s : Sys) : Event → Prop
  | .alloc size => size ≤ 0xfffffffc
  | .realloc ptr newsize => newsize ≤ 0xfffffff0 ∧ ∀ p ∈ ptr, s.IsLive p
  | .free ptr => ∀ p ∈ ptr, s.IsLive p
  | .write p i _ => s.IsLive p ∧ i < s.heap.memitemSize (p - memheapSize)

instance (s : Sys) (e : Event) : Decidable (s.Allowed e) := by
  cases e <;> unfold Allowed <;> infer_instance

/-- A function returns a pointer. -/
def handOut (s : Sys) (size : Nat) : Option Nat → Sys
  | none => s
  | some p => { s with live := (p, size) :: s.live }

/-- A pointer is given back. -/
def giveBack (s : Sys) : Option Nat → Sys
  | none => s
  | some p => { s with live := s.live.filter fun q => q.1 ≠ p }

/-- The pointer that was passed to `rt_memheap_realloc` is no longer live when the call frees it or
returns a pointer. -/
def exec (s : Sys) : Event → Option Sys
  | .alloc size => do
    let (h, result) ← s.heap.rtMemheapAlloc size
    return { s with heap := h }.handOut size result
  | .realloc ptr newsize => do
    let (h, result) ← s.heap.rtMemheapRealloc ptr newsize
    let s := if newsize = 0 ∨ result.isSome then s.giveBack ptr else s
    return { s with heap := h }.handOut newsize result
  | .free ptr => do
    let h ← s.heap.rtMemheapFree ptr
    return { s with heap := h }.giveBack ptr
  | .write p i v => some { s with heap := s.heap.write (p + i) v }

def step (s : Sys) (e : Event) : Option Sys := if s.Allowed e then s.exec e else none

def start (h : Memheap) : Sys where
  heap := h
  live := []

end Sys

end Memheap

end RtThread
