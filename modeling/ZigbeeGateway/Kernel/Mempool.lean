-- SUMMARY: The model of rt_mp_alloc and rt_mp_free.
import ZigbeeGateway.Lib.Linked
import ZigbeeGateway.Lib.Run
import ZigbeeGateway.Kernel.Ipc

/-!
# Memory pools

The model of `src/mempool.c`. A pool is cut into blocks with a pointer before each of
them: the pointer of a free block leads to the next free block, the pointer of a block
in use leads to the pool. A thread that finds no free block is suspended, and takes the
block only when it runs again.

An address is a 32-bit word and `RT_NULL` is 0. `mem` maps the address of a pointer to
the address stored there. Nothing stops a read or a write at the address 0, so the model
goes on where the code follows a null pointer.
-/

namespace RtThread

open Word Function

/-- `struct rt_mempool`; `address` is the address of the object itself. There are fewer than
`2 ^ 32` thread objects, so `suspend_thread_count` does not wrap. -/
structure Mempool where
  address : Nat
  startAddress : Nat
  size : Nat
  blockSize : Nat
  blockList : Nat
  blockTotalCount : Nat
  blockFreeCount : Nat
  suspendThreadCount : Nat
  deriving DecidableEq, Repr

namespace Mempool

/-- The list head `suspend_thread`. -/
def suspendThread (mp : Mempool) : ListHead := .suspendThread mp.address

/-- The address of the pointer before block `i`, when the blocks are `stride` bytes apart. -/
def blockPtr (start stride i : Nat) : Nat := add32 start (mul32 i stride)

/-- The memory after `n` rounds of the loop of `rt_mp_init`. -/
def linkBlocks (start stride : Nat) (mem : Nat → Nat) : Nat → Nat → Nat
  | 0 => mem
  | n + 1 =>
    update (linkBlocks start stride mem n) (blockPtr start stride n)
      (blockPtr start stride (n + 1))

/-- `rt_mp_init`. It divides by the aligned block size plus the size of a pointer, which
wraps to zero for the largest block sizes. -/
def rtMpInit (address start size blockSize : Nat) (mem : Nat → Nat) :
    Option (Mempool × (Nat → Nat)) :=
  let size := rtAlignDown size
  let blockSize := rtAlign blockSize
  let stride := add32 blockSize 4
  if stride = 0 then
    none
  else
    let total := size / stride
    let mem := linkBlocks start stride mem total
    -- for a pool without blocks this is the word one stride before the start
    let mem := update mem (blockPtr start stride (sub32 total 1)) 0
    some ({
      address := address
      startAddress := start
      size := size
      blockSize := blockSize
      blockList := start
      blockTotalCount := total
      blockFreeCount := total
      suspendThreadCount := 0 }, mem)

/-- The first block of the free list is taken; both ways through `rt_mp_alloc` end with it.
The result holds the address of the pointer before the block. -/
def takeBlock (mp : Mempool) (mem : Nat → Nat) : Mempool × (Nat → Nat) × Nat :=
  let blockPtr := mp.blockList
  ({ mp with
    blockFreeCount := sub32 mp.blockFreeCount 1
    blockList := mem blockPtr }, update mem blockPtr mp.address, blockPtr)

/-- `rt_mp_alloc` of thread `t` up to its call of `rt_schedule`. The result is `none` when
the thread is suspended, and the return value otherwise. -/
def rtMpAlloc (k : Kernel) (mp : Mempool) (mem : Nat → Nat) (t : Tid) (time : Int) :
    Option (Kernel × Mempool × (Nat → Nat) × Option Nat) :=
  if mp.blockFreeCount ≠ 0 then
    let (mp, mem, blockPtr) := takeBlock mp mem
    some (k, mp, mem, some (add32 blockPtr 4))
  else if time = 0 then
    some (k, mp, mem, some 0)
  else do
    let (k, _) := k.rtThreadSuspend t
    let k := k.rtListInsertAfter mp.suspendThread t
    let mp := { mp with suspendThreadCount := mp.suspendThreadCount + 1 }
    let k ← k.startThreadTimer t time
    return (k, mp, mem, none)

/-- The end of a blocked `rt_mp_alloc`, when thread `t` runs again. -/
def rtMpAllocReturn (k : Kernel) (mp : Mempool) (mem : Nat → Nat) (t : Tid) :
    Mempool × (Nat → Nat) × Nat :=
  if (k.thread t).error ≠ .eok then
    (mp, mem, 0)
  else
    let (mp, mem, blockPtr) := takeBlock mp mem
    (mp, mem, add32 blockPtr 4)

/-- The block behind the pointer at `blockPtr` becomes the first one of the free list. -/
def putBlock (mp : Mempool) (mem : Nat → Nat) (blockPtr : Nat) : Mempool × (Nat → Nat) :=
  ({ mp with
    blockFreeCount := add32 mp.blockFreeCount 1
    blockList := blockPtr }, update mem blockPtr mp.blockList)

/-- `rt_mp_free` of the block behind the pointer at `blockPtr`. A block whose pointer does not
lead to the pool `mp` is freed into another pool. With a waiter counted and none in the
list, the source takes the list head for a thread. -/
def freeBlock (k : Kernel) (mp : Mempool) (mem : Nat → Nat) (blockPtr : Nat) :
    Option (Kernel × Mempool × (Nat → Nat)) :=
  if mem blockPtr ≠ mp.address then
    none
  else
    let (mp, mem) := putBlock mp mem blockPtr
    if 0 < mp.suspendThreadCount then
      match k.tlist mp.suspendThread with
      | [] => none
      | thread :: _ =>
        let k := k.setThread thread { k.thread thread with error := .eok }
        let (k, _) := k.rtThreadResume thread
        some (k, { mp with suspendThreadCount := mp.suspendThreadCount - 1 }, mem)
    else
      some (k, mp, mem)

/-- `rt_mp_free`. -/
def rtMpFree (k : Kernel) (mp : Mempool) (mem : Nat → Nat) (block : Nat) :
    Option (Kernel × Mempool × (Nat → Nat)) :=
  freeBlock k mp mem (sub32 block 4)

/-! ## Runs -/

/-- The calls, the return of a blocked allocation, and the expiry of a thread timer. -/
inductive Event where
  | alloc (t : Tid) (time : Int)
  | allocReturn (t : Tid)
  | free (block : Nat)
  | expire (t : Tid)
  deriving DecidableEq, Repr

structure Sys where
  kernel : Kernel
  mp : Mempool
  mem : Nat → Nat
  /-- The threads in an allocation that was suspended and has not returned. -/
  inAlloc : Tid → Bool
  /-- The blocks that were handed out and not freed. -/
  live : List Nat

namespace Sys

def waiters (s : Sys) : List Tid := s.kernel.tlist s.mp.suspendThread

/-- The block that a call returned, if any, is handed out. -/
def handOut (s : Sys) (block : Nat) : List Nat := if block = 0 then s.live else block :: s.live

def afterAlloc (s : Sys) (t : Tid) : Kernel × Mempool × (Nat → Nat) × Option Nat → Sys
  | (k, mp, mem, none) =>
    { s with kernel := k, mp := mp, mem := mem, inAlloc := update s.inAlloc t true }
  | (k, mp, mem, some block) =>
    { s with kernel := k, mp := mp, mem := mem, live := s.handOut block }

def afterReturn (s : Sys) (t : Tid) : Mempool × (Nat → Nat) × Nat → Sys
  | (mp, mem, block) =>
    { s with
      mp := mp
      mem := mem
      inAlloc := update s.inAlloc t false
      live := s.handOut block }

def afterFree (s : Sys) (block : Nat) : Kernel × Mempool × (Nat → Nat) → Sys
  | (k, mp, mem) => { s with kernel := k, mp := mp, mem := mem, live := s.live.erase block }

end Sys

/-- A free is one of a block that was handed out, in any context. -/
def step (s : Sys) : Event → Option Sys
  | .alloc t time =>
    if (s.kernel.thread t).stat = .ready ∧ s.inAlloc t = false then
      (rtMpAlloc s.kernel s.mp s.mem t time).map (s.afterAlloc t)
    else
      none
  | .allocReturn t =>
    if (s.kernel.thread t).stat = .ready ∧ s.inAlloc t = true then
      some (s.afterReturn t (rtMpAllocReturn s.kernel s.mp s.mem t))
    else
      none
  | .free block =>
    if block ∈ s.live then
      (rtMpFree s.kernel s.mp s.mem block).map (s.afterFree block)
    else
      none
  | .expire t => (s.kernel.expire t).map fun k => { s with kernel := k }

/-- A pool that was just initialised on `size` bytes of memory, among threads in any state. -/
structure Initial (s : Sys) : Prop where
  wf : s.kernel.WF
  pool : ∃ address start size blockSize mem, 0 < start ∧ start + size < size32 ∧
    rtMpInit address start size blockSize mem = some (s.mp, s.mem)
  waiters : s.waiters = []
  live : s.live = []

end Mempool

end RtThread
