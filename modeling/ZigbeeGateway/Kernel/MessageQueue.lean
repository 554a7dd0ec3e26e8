-- SUMMARY: The model of rt_mq_send, rt_mq_urgent and rt_mq_recv.
import ZigbeeGateway.Lib.Run
import ZigbeeGateway.Kernel.Ipc

/-!
# Message queues

A message queue owns a pool of slots. A slot is a link field and room for one message, and
it is on the free list or on the message list. Every call has two critical sections: a send
fetches a slot in the first one and links it in the second one, a receive unlinks a slot in
the first one and frees it in the second one. The payload is copied in between, with
interrupts enabled, and the slot is then on neither list. One step of a run is one critical
section, or the copy of one byte.
-/

namespace RtThread

open Run Word Function

/-- `struct rt_messagequeue` and its pool. A pointer to a slot is the number of the slot;
`next` and `payload` are what the slots hold. -/
structure MessageQueue where
  parent : IpcObject
  msgSize : Nat
  maxMsgs : Nat
  entry : Nat
  msgQueueHead : Option Nat
  msgQueueTail : Option Nat
  msgQueueFree : Option Nat
  next : Nat → Option Nat
  payload : Nat → Nat → UInt8

namespace MessageQueue

/-- The loop of `rt_mq_init`: the slots below `n` are on the free list. -/
def initLoop (mq : MessageQueue) : Nat → MessageQueue
  | 0 => mq
  | temp + 1 =>
    let mq := mq.initLoop temp
    { mq with
      next := update mq.next temp mq.msgQueueFree
      msgQueueFree := some temp }

/-- `rt_mq_init` on a pool with any contents. The sizes are truncated to `rt_uint16_t`; a slot
is a message and a pointer of four bytes. -/
def rtMqInit (obj : Nat) (next : Nat → Option Nat) (payload : Nat → Nat → UInt8)
    (msgSize poolSize : Nat) (flag : IpcFlag) : MessageQueue :=
  let msgSize := rtAlign msgSize % 65536
  let maxMsgs := poolSize / (msgSize + 4) % 65536
  let mq : MessageQueue := {
    parent := { obj := obj, flag := flag }
    msgSize := msgSize
    maxMsgs := maxMsgs
    entry := 0
    msgQueueHead := none
    msgQueueTail := none
    msgQueueFree := none
    next := next
    payload := payload }
  mq.initLoop maxMsgs

/-- The first critical section of `rt_mq_send` and of `rt_mq_urgent`: fetch a free slot. -/
def fetchFree (mq : MessageQueue) (size : Nat) : Option (MessageQueue × Except Err Nat) := do
  rtAssert (size ≠ 0)
  if mq.msgSize < size then
    return (mq, .error .error)
  else
    match mq.msgQueueFree with
    | none => return (mq, .error .efull)
    | some msg => return ({ mq with msgQueueFree := mq.next msg }, .ok msg)

/-- `msg->next = RT_NULL`, which only `rt_mq_send` does before it copies. -/
def clearNext (mq : MessageQueue) (msg : Nat) : MessageQueue :=
  { mq with next := update mq.next msg none }

/-- One byte of the copy into a slot. -/
def writeByte (mq : MessageQueue) (msg i : Nat) (byte : UInt8) : MessageQueue :=
  { mq with payload := update mq.payload msg (update (mq.payload msg) i byte) }

/-- The second critical section of `rt_mq_send`, before it resumes a receiver. -/
def linkTail (mq : MessageQueue) (msg : Nat) : MessageQueue :=
  { mq with
    next := match mq.msgQueueTail with
      | some tail => update mq.next tail (some msg)
      | none => mq.next
    msgQueueTail := some msg
    msgQueueHead := if mq.msgQueueHead = none then some msg else mq.msgQueueHead
    entry := (mq.entry + 1) % 65536 }

/-- The second critical section of `rt_mq_urgent`, before it resumes a receiver. -/
def linkHead (mq : MessageQueue) (msg : Nat) : MessageQueue :=
  { mq with
    next := update mq.next msg mq.msgQueueHead
    msgQueueHead := some msg
    msgQueueTail := if mq.msgQueueTail = none then some msg else mq.msgQueueTail
    entry := (mq.entry + 1) % 65536 }

/-- Unlink the first message. -/
def unlinkHead (mq : MessageQueue) (msg : Nat) : MessageQueue :=
  { mq with
    msgQueueHead := mq.next msg
    msgQueueTail := if mq.msgQueueTail = some msg then none else mq.msgQueueTail }

/-- Put a slot to the free list. -/
def putFree (mq : MessageQueue) (msg : Nat) : MessageQueue :=
  { mq with
    next := update mq.next msg mq.msgQueueFree
    msgQueueFree := some msg }

/-- The code that may run a call. Only a thread can wait. -/
inductive Context where
  | thread (t : Tid)
  | isr (n : Nat)
  deriving DecidableEq, Repr

/-- `RT_DEBUG_IN_THREAD_CONTEXT`, and the thread. -/
def Context.self : Context → Option Tid
  | .thread t => some t
  | .isr _ => none

/-- The loop of `rt_mq_recv` and the critical section that takes a message. An empty message
list with a positive `entry` would be a null pointer access. -/
def rtMqRecvLoop (k : Kernel) (mq : MessageQueue) (c : Context) (timeout : Int)
    (tickDelta : Nat) : Option (Kernel × MessageQueue × Outcome (Except Err Nat)) :=
  if mq.entry = 0 then do
    let t ← c.self
    let k := k.setThread t { k.thread t with error := .eok }
    if timeout = 0 then
      let k := k.setThread t { k.thread t with error := .etimeout }
      return (k, mq, .returned (.error .etimeout))
    else
      let k := k.rtIpcListSuspend mq.parent.suspendThread t mq.parent.flag
      let tickDelta := if 0 < timeout then k.threadTimer.rtTick else tickDelta
      let k ← k.startThreadTimer t timeout
      return (k, mq, .blocked timeout tickDelta)
  else do
    let msg ← mq.msgQueueHead
    let mq := mq.unlinkHead msg
    return (k, { mq with entry := mq.entry - 1 }, .returned (.ok msg))

/-- `rt_mq_recv` up to its copy, or up to its call of `rt_schedule`. -/
def rtMqRecv (k : Kernel) (mq : MessageQueue) (c : Context) (size : Nat) (timeout : Int) :
    Option (Kernel × MessageQueue × Outcome (Except Err Nat)) := do
  rtAssert (size ≠ 0)
  if mq.entry = 0 ∧ timeout = 0 then
    return (k, mq, .returned (.error .etimeout))
  else
    rtMqRecvLoop k mq c timeout 0

/-- `rt_mq_recv` when its thread runs again. -/
def rtMqRecvResume (k : Kernel) (mq : MessageQueue) (t : Tid) (timeout : Int) (tickDelta : Nat) :
    Option (Kernel × MessageQueue × Outcome (Except Err Nat)) :=
  if (k.thread t).error ≠ .eok then
    some (k, mq, .returned (.error (k.thread t).error))
  else
    rtMqRecvLoop k mq (.thread t) (remainingTime k timeout tickDelta) tickDelta

/-- The number of bytes that `rt_mq_recv` copies. -/
def copySize (mq : MessageQueue) (size : Nat) : Nat := if mq.msgSize < size then mq.msgSize else size

/-- Resume the first receiver that waits, if there is one. -/
def resumeReceiver (k : Kernel) (mq : MessageQueue) : Option Kernel :=
  if k.tlist mq.parent.suspendThread ≠ [] then
    k.rtIpcListResume mq.parent.suspendThread
  else
    some k

/-- The second critical section of `rt_mq_send`. -/
def rtMqSendLink (k : Kernel) (mq : MessageQueue) (msg : Nat) : Option (Kernel × MessageQueue) :=
  (resumeReceiver k mq).map fun k => (k, mq.linkTail msg)

/-- The second critical section of `rt_mq_urgent`. -/
def rtMqUrgentLink (k : Kernel) (mq : MessageQueue) (msg : Nat) : Option (Kernel × MessageQueue) :=
  (resumeReceiver k mq).map fun k => (k, mq.linkHead msg)

/-- The loop of `RT_IPC_CMD_RESET` that frees the messages, for at most `fuel` messages. -/
def resetLoop : Nat → MessageQueue → Option MessageQueue
  | 0, mq => if mq.msgQueueHead = none then some mq else none
  | fuel + 1, mq =>
    match mq.msgQueueHead with
    | none => some mq
    | some msg => resetLoop fuel ((mq.unlinkHead msg).putFree msg)

/-- `rt_mq_control` with `RT_IPC_CMD_RESET`. -/
def rtMqReset (k : Kernel) (mq : MessageQueue) : Option (Kernel × MessageQueue) := do
  let k ← k.rtIpcListResumeAll mq.parent.suspendThread
  let mq ← resetLoop mq.maxMsgs mq
  return (k, { mq with entry := 0 })

/-! ## Runs -/

/-- Where a call is, with its local variables: a send that has fetched a slot; a send or an urgent
send that has copied `n` bytes; a receive that waits; a receive that has copied some bytes. -/
inductive Call where
  | idle
  | fetched (msg : Nat) (buffer : List UInt8)
  | filling (urgent : Bool) (msg : Nat) (buffer : List UInt8) (n : Nat)
  | waiting (size : Nat) (timeout : Int) (tickDelta : Nat)
  | draining (msg size : Nat) (copied : List UInt8)
  deriving DecidableEq, Repr

/-- The slot that a call holds. -/
def Call.slot : Call → Option Nat
  | .idle => none
  | .fetched msg _ => some msg
  | .filling _ msg _ _ => some msg
  | .waiting .. => none
  | .draining msg _ _ => some msg

/-- A call that begins, a receive that goes on after `rt_schedule`, the next instruction of a copy,
the second critical section of a call, a reset, the expiry of a thread timer, and the clock. -/
inductive Event where
  | send (c : Context) (buffer : List UInt8)
  | urgent (c : Context) (buffer : List UInt8)
  | recv (c : Context) (size : Nat) (timeout : Int)
  | resume (t : Tid)
  | copy (c : Context)
  | finish (c : Context)
  | reset
  | expire (t : Tid)
  | tick
  deriving DecidableEq, Repr

/-- A message on the queue, with the bytes that were sent. -/
structure Message where
  slot : Nat
  bytes : List UInt8
  deriving DecidableEq, Repr

/-- A successful receive: the message it took, the size of the buffer, and the bytes that were
copied to it. -/
structure Receipt where
  message : Option Message
  size : Nat
  bytes : List UInt8
  deriving DecidableEq, Repr

structure Sys where
  kernel : Kernel
  mq : MessageQueue
  call : Context → Call
  /-- The messages in link order. A send adds its message at the end, an urgent send at the
      front, a receive takes the first one, and a reset drops all of them. -/
  queue : List Message
  /-- The message that a receive took from the queue. -/
  taken : Context → Option Message
  received : List Receipt

namespace Sys

/-- The slot that the call of a context holds. -/
def held (s : Sys) (c : Context) : Option Nat := (s.call c).slot

def setCall (s : Sys) (c : Context) (call : Call) : Sys :=
  { s with call := update s.call c call }

/-- A thread runs only when it is ready. -/
def Runs (s : Sys) : Context → Prop
  | .thread t => (s.kernel.thread t).stat = .ready
  | .isr _ => True

instance (s : Sys) : (c : Context) → Decidable (s.Runs c)
  | .thread _ => inferInstanceAs (Decidable (_ = _))
  | .isr _ => inferInstanceAs (Decidable True)

/-- The context begins a call. -/
def MayCall (s : Sys) (c : Context) : Prop := s.Runs c ∧ s.call c = .idle

instance (s : Sys) (c : Context) : Decidable (s.MayCall c) := inferInstanceAs (Decidable (_ ∧ _))

/-- The end of a first critical section of a send. -/
def afterFetch (s : Sys) (c : Context) (next : Nat → Call) : MessageQueue × Except Err Nat → Sys
  | (_, .error _) => s
  | (mq, .ok msg) => { s with mq := mq }.setCall c (next msg)

/-- The end of a critical section of a receive. -/
def afterRecv (s : Sys) (c : Context) (size : Nat) :
    Kernel × MessageQueue × Outcome (Except Err Nat) → Sys
  | (k, mq, .returned (.error _)) => { s with kernel := k, mq := mq }.setCall c .idle
  | (k, mq, .returned (.ok msg)) =>
    { s with
      kernel := k
      mq := mq
      queue := s.queue.tail
      taken := update s.taken c s.queue.head? }.setCall c (.draining msg size [])
  | (k, mq, .blocked timeout tickDelta) =>
    { s with kernel := k, mq := mq }.setCall c (.waiting size timeout tickDelta)

/-- The next instruction of a copy. -/
def copy (s : Sys) (c : Context) : Option Sys :=
  match s.call c with
  | .fetched msg buffer =>
    some ({ s with mq := s.mq.clearNext msg }.setCall c (.filling false msg buffer 0))
  | .filling urgent msg buffer n =>
    buffer[n]?.map fun byte =>
      { s with mq := s.mq.writeByte msg n byte }.setCall c (.filling urgent msg buffer (n + 1))
  | .draining msg size copied =>
    if copied.length < s.mq.copySize size then
      some (s.setCall c (.draining msg size (copied ++ [s.mq.payload msg copied.length])))
    else
      none
  | _ => none

/-- The second critical section of a call, when its copy is complete. -/
def finish (s : Sys) (c : Context) : Option Sys :=
  match s.call c with
  | .filling urgent msg buffer n =>
    if n = buffer.length then
      let message : Message := ⟨msg, buffer⟩
      if urgent then
        (rtMqUrgentLink s.kernel s.mq msg).map fun (k, mq) =>
          { s with kernel := k, mq := mq, queue := message :: s.queue }.setCall c .idle
      else
        (rtMqSendLink s.kernel s.mq msg).map fun (k, mq) =>
          { s with kernel := k, mq := mq, queue := s.queue ++ [message] }.setCall c .idle
    else
      none
  | .draining msg size copied =>
    if copied.length < s.mq.copySize size then
      none
    else
      let receipt : Receipt := ⟨s.taken c, size, copied⟩
      some ({ s with
        mq := s.mq.putFree msg
        taken := update s.taken c none
        received := s.received ++ [receipt] }.setCall c .idle)
  | _ => none

end Sys

def step (s : Sys) : Event → Option Sys
  | .send c buffer =>
    if s.MayCall c then
      (s.mq.fetchFree buffer.length).map (s.afterFetch c fun msg => .fetched msg buffer)
    else
      none
  | .urgent c buffer =>
    if s.MayCall c then
      (s.mq.fetchFree buffer.length).map (s.afterFetch c fun msg => .filling true msg buffer 0)
    else
      none
  | .recv c size timeout =>
    if s.MayCall c then
      (rtMqRecv s.kernel s.mq c size timeout).map (s.afterRecv c size)
    else
      none
  | .resume t =>
    if s.Runs (.thread t) then
      match s.call (.thread t) with
      | .waiting size timeout tickDelta =>
        (rtMqRecvResume s.kernel s.mq t timeout tickDelta).map (s.afterRecv (.thread t) size)
      | _ => none
    else
      none
  | .copy c => if s.Runs c then s.copy c else none
  | .finish c => if s.Runs c then s.finish c else none
  | .reset =>
    (rtMqReset s.kernel s.mq).map fun (k, mq) => { s with kernel := k, mq := mq, queue := [] }
  | .expire t => (s.kernel.expire t).map fun k => { s with kernel := k }
  | .tick =>
    some { s with
      kernel := { s.kernel with
        threadTimer := { s.kernel.threadTimer with
          rtTick := add32 s.kernel.threadTimer.rtTick 1 } } }

/-- A message queue that was just initialised, among threads in any state. -/
structure Initial (s : Sys) : Prop where
  wf : s.kernel.WF
  mq : ∃ obj next payload msgSize poolSize flag,
    s.mq = rtMqInit obj next payload msgSize poolSize flag
  receivers : s.kernel.tlist s.mq.parent.suspendThread = []
  call : ∀ c, s.call c = .idle
  queue : s.queue = []
  received : s.received = []

end MessageQueue

end RtThread
