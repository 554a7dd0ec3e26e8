-- SUMMARY: The model of rt_mb_send_wait and rt_mb_recv.
import ZigbeeGateway.Lib.Ring
import ZigbeeGateway.Lib.Run
import ZigbeeGateway.Kernel.Ipc

/-!
# Mailboxes

A mailbox is a ring of words with two wait lists, one for the receivers and one for the
senders. Both calls test the ring in a loop: a thread that is resumed owns neither a mail
nor a free slot, so it tests again, with the rest of its waiting time. One step of a run is
one critical section of a call: from the call, or from the point where the thread runs again
after `rt_schedule`, to the next `rt_schedule` or to the return.
-/

namespace RtThread

open Run Word Function

/-- `struct rt_mailbox`; the four counters are `rt_uint16_t`. -/
structure Mailbox where
  parent : IpcObject
  msgPool : Nat → BitVec 32
  size : Nat
  entry : Nat
  inOffset : Nat
  outOffset : Nat

namespace Mailbox

/-- The list head `suspend_sender_thread`. -/
def suspendSenderThread (mb : Mailbox) : ListHead := .suspendSenderThread mb.parent.obj

/-- `rt_mb_init`: the size is truncated to `rt_uint16_t`. -/
def rtMbInit (obj : Nat) (msgpool : Nat → BitVec 32) (size : Nat) (flag : IpcFlag) : Mailbox where
  parent := { obj := obj, flag := flag }
  msgPool := msgpool
  size := size % 65536
  entry := 0
  inOffset := 0
  outOffset := 0

/-- Increase an offset of type `rt_uint16_t` and wrap it at the size. -/
def nextOffset (size offset : Nat) : Nat :=
  let offset := (offset + 1) % 65536
  if size ≤ offset then 0 else offset

/-- Resume the first thread of a wait list, if there is one. -/
def resumeFirst (k : Kernel) (list : ListHead) : Option Kernel :=
  if k.tlist list ≠ [] then k.rtIpcListResume list else some k

/-- The loop of `rt_mb_send_wait` and what follows it. -/
def rtMbSendLoop (k : Kernel) (mb : Mailbox) (t : Tid) (value : BitVec 32) (timeout : Int)
    (tickDelta : Nat) : Option (Kernel × Mailbox × Outcome Err) :=
  if mb.entry = mb.size then
    let k := k.setThread t { k.thread t with error := .eok }
    if timeout = 0 then
      some (k, mb, .returned .efull)
    else do
      let k := k.rtIpcListSuspend mb.suspendSenderThread t mb.parent.flag
      let tickDelta := if 0 < timeout then k.threadTimer.rtTick else tickDelta
      let k ← k.startThreadTimer t timeout
      return (k, mb, .blocked timeout tickDelta)
  else do
    let mb := { mb with
      msgPool := update mb.msgPool mb.inOffset value
      inOffset := nextOffset mb.size mb.inOffset
      entry := (mb.entry + 1) % 65536 }
    let k ← resumeFirst k mb.parent.suspendThread
    return (k, mb, .returned .eok)

/-- `rt_mb_send_wait` up to its call of `rt_schedule`; `rt_mb_send` is the call that does not wait. -/
def rtMbSendWait (k : Kernel) (mb : Mailbox) (t : Tid) (value : BitVec 32) (timeout : Int) :
    Option (Kernel × Mailbox × Outcome Err) :=
  if mb.entry = mb.size ∧ timeout = 0 then
    some (k, mb, .returned .efull)
  else
    rtMbSendLoop k mb t value timeout 0

/-- `rt_mb_send_wait` when its thread runs again. -/
def rtMbSendResume (k : Kernel) (mb : Mailbox) (t : Tid) (value : BitVec 32) (timeout : Int)
    (tickDelta : Nat) : Option (Kernel × Mailbox × Outcome Err) :=
  if (k.thread t).error ≠ .eok then
    some (k, mb, .returned (k.thread t).error)
  else
    rtMbSendLoop k mb t value (remainingTime k timeout tickDelta) tickDelta

/-- What `rt_mb_recv` returns: the error number, and the mail when it was written. -/
structure Received where
  result : Err
  value : Option (BitVec 32)
  deriving DecidableEq, Repr

/-- The loop of `rt_mb_recv` and what follows it. -/
def rtMbRecvLoop (k : Kernel) (mb : Mailbox) (t : Tid) (timeout : Int) (tickDelta : Nat) :
    Option (Kernel × Mailbox × Outcome Received) :=
  if mb.entry = 0 then
    let k := k.setThread t { k.thread t with error := .eok }
    if timeout = 0 then
      let k := k.setThread t { k.thread t with error := .etimeout }
      some (k, mb, .returned ⟨.etimeout, none⟩)
    else do
      let k := k.rtIpcListSuspend mb.parent.suspendThread t mb.parent.flag
      let tickDelta := if 0 < timeout then k.threadTimer.rtTick else tickDelta
      let k ← k.startThreadTimer t timeout
      return (k, mb, .blocked timeout tickDelta)
  else do
    let value := mb.msgPool mb.outOffset
    let mb := { mb with
      outOffset := nextOffset mb.size mb.outOffset
      entry := mb.entry - 1 }
    let k ← resumeFirst k mb.suspendSenderThread
    return (k, mb, .returned ⟨.eok, some value⟩)

/-- `rt_mb_recv` up to its call of `rt_schedule`. -/
def rtMbRecv (k : Kernel) (mb : Mailbox) (t : Tid) (timeout : Int) :
    Option (Kernel × Mailbox × Outcome Received) :=
  if mb.entry = 0 ∧ timeout = 0 then
    some (k, mb, .returned ⟨.etimeout, none⟩)
  else
    rtMbRecvLoop k mb t timeout 0

/-- `rt_mb_recv` when its thread runs again. -/
def rtMbRecvResume (k : Kernel) (mb : Mailbox) (t : Tid) (timeout : Int) (tickDelta : Nat) :
    Option (Kernel × Mailbox × Outcome Received) :=
  if (k.thread t).error ≠ .eok then
    some (k, mb, .returned ⟨(k.thread t).error, none⟩)
  else
    rtMbRecvLoop k mb t (remainingTime k timeout tickDelta) tickDelta

/-- `rt_mb_control` with `RT_IPC_CMD_RESET`. -/
def rtMbReset (k : Kernel) (mb : Mailbox) : Option (Kernel × Mailbox) := do
  let k ← k.rtIpcListResumeAll mb.parent.suspendThread
  let k ← k.rtIpcListResumeAll mb.suspendSenderThread
  return (k, { mb with entry := 0, inOffset := 0, outOffset := 0 })

/-! ## Runs -/

/-- The suspended call of a thread, with its local variables. -/
inductive Call where
  | idle
  | send (value : BitVec 32) (timeout : Int) (tickDelta : Nat)
  | recv (timeout : Int) (tickDelta : Nat)
  deriving DecidableEq, Repr

/-- The calls, the point where a suspended call goes on, the expiry of a thread timer, and the
clock. A call that does not wait may come from any context. -/
inductive Event where
  | send (t : Tid) (value : BitVec 32) (timeout : Int)
  | recv (t : Tid) (timeout : Int)
  | resume (t : Tid)
  | expire (t : Tid)
  | tick
  deriving DecidableEq, Repr

structure Sys where
  kernel : Kernel
  mb : Mailbox
  call : Tid → Call
  /-- The mails of the successful senders and of the successful receivers, in order. -/
  accepted : List (BitVec 32)
  delivered : List (BitVec 32)
  /-- The threads that were resumed by a send or by a receive and did not run since. -/
  resumedReceivers : List Tid
  resumedSenders : List Tid

namespace Sys

def receivers (s : Sys) : List Tid := s.kernel.tlist s.mb.parent.suspendThread

def senders (s : Sys) : List Tid := s.kernel.tlist s.mb.suspendSenderThread

/-- The threads that waited on a list of the mailbox and no longer do. -/
def woken (waiting : List Tid) (k : Kernel) (list : ListHead) : List Tid :=
  waiting.filter (· ∉ k.tlist list)

/-- A critical section of a send. -/
def afterSend (s : Sys) (t : Tid) (value : BitVec 32) : Kernel × Mailbox × Outcome Err → Sys
  | (k, mb, outcome) =>
    let s := { s with
      kernel := k
      mb := mb
      resumedReceivers :=
        s.resumedReceivers ++ woken s.receivers k s.mb.parent.suspendThread }
    match outcome with
    | .returned result =>
      if result = .eok then { s with accepted := s.accepted ++ [value] } else s
    | .blocked timeout tickDelta =>
      { s with call := update s.call t (.send value timeout tickDelta) }

/-- A critical section of a receive. -/
def afterRecv (s : Sys) (t : Tid) : Kernel × Mailbox × Outcome Received → Sys
  | (k, mb, outcome) =>
    let s := { s with
      kernel := k
      mb := mb
      resumedSenders :=
        s.resumedSenders ++ woken s.senders k s.mb.suspendSenderThread }
    match outcome with
    | .returned ⟨_, value⟩ => { s with delivered := s.delivered ++ value.toList }
    | .blocked timeout tickDelta =>
      { s with call := update s.call t (.recv timeout tickDelta) }

/-- The thread runs again: its call is no longer suspended. -/
def leave (s : Sys) (t : Tid) : Sys :=
  { s with
    call := update s.call t .idle
    resumedReceivers := s.resumedReceivers.erase t
    resumedSenders := s.resumedSenders.erase t }

/-- The call is made by a ready thread, or it does not wait. -/
def MayCall (s : Sys) (t : Tid) (timeout : Int) : Prop :=
  timeout = 0 ∨ ((s.kernel.thread t).stat = .ready ∧ s.call t = .idle)

instance (s : Sys) (t : Tid) (timeout : Int) : Decidable (s.MayCall t timeout) :=
  inferInstanceAs (Decidable (_ ∨ _))

end Sys

def step (s : Sys) : Event → Option Sys
  | .send t value timeout =>
    if s.MayCall t timeout then
      (rtMbSendWait s.kernel s.mb t value timeout).map (s.afterSend t value)
    else
      none
  | .recv t timeout =>
    if s.MayCall t timeout then (rtMbRecv s.kernel s.mb t timeout).map (s.afterRecv t) else none
  | .resume t =>
    if (s.kernel.thread t).stat = .ready then
      match s.call t with
      | .idle => none
      | .send value timeout tickDelta =>
        (rtMbSendResume s.kernel s.mb t value timeout tickDelta).map
          ((s.leave t).afterSend t value)
      | .recv timeout tickDelta =>
        (rtMbRecvResume s.kernel s.mb t timeout tickDelta).map ((s.leave t).afterRecv t)
    else
      none
  | .expire t => (s.kernel.expire t).map fun k => { s with kernel := k }
  | .tick =>
    some { s with
      kernel := { s.kernel with
        threadTimer := { s.kernel.threadTimer with
          rtTick := add32 s.kernel.threadTimer.rtTick 1 } } }

/-- A mailbox that was just initialised, among threads in any state. -/
structure Initial (s : Sys) : Prop where
  wf : s.kernel.WF
  mb : ∃ obj msgpool size flag, s.mb = rtMbInit obj msgpool size flag
  receivers : s.receivers = []
  senders : s.senders = []
  call : ∀ t, s.call t = .idle
  accepted : s.accepted = []
  delivered : s.delivered = []
  resumedReceivers : s.resumedReceivers = []
  resumedSenders : s.resumedSenders = []

end Mailbox

end RtThread
