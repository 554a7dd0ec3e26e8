-- SUMMARY: The model of thread.c and scheduler.c.
import ZigbeeGateway.Lib.Lanes
import ZigbeeGateway.Kernel.Kservice
import ZigbeeGateway.Kernel.Timer

/-!
# Threads and the scheduler

The model of `src/thread.c` and `src/scheduler.c` for `RT_THREAD_PRIORITY_MAX = 32`.
A thread object is named by a number, and there is one object for every number: a
thread that is not started has the state `RT_THREAD_INIT`.

The node `tlist` of a thread is linked in at most one of the kernel's intrusive
lists. The lists are a family indexed by their heads, and `rt_list_remove` unlinks
the node from whatever list it is in.

A function that ends in a call of `rt_schedule` returns the state before that call,
so that a reader sees on which state the scheduler works. A call that runs into a
failed assertion or reads outside of the priority table has no result.
-/

namespace RtThread

abbrev Tid := Nat

/-- `RT_THREAD_INIT`, `RT_THREAD_READY`, `RT_THREAD_SUSPEND`, `RT_THREAD_CLOSE`. -/
inductive ThreadStat where
  | init
  | ready
  | suspend
  | close
  deriving DecidableEq, Repr

/-- The fields of `struct rt_thread` that the kernel functions of this development use.
`isSystemObject` is the static bit of the object type, `cleanup` says that the
cleanup function is not `RT_NULL`. -/
structure Thread where
  isSystemObject : Bool
  cleanup : Bool
  error : Err
  stat : ThreadStat
  currentPriority : Nat
  initPriority : Nat
  numberMask : BitVec 32
  eventSet : BitVec 32
  eventInfo : BitVec 8
  deriving DecidableEq, Repr

/-- The heads of the lists that link threads: `rt_thread_priority_table[p]`,
`rt_thread_defunct`, and the two wait lists of an IPC object. -/
inductive ListHead where
  | priorityTable (p : Nat)
  | defunct
  | suspendThread (obj : Nat)
  | suspendSenderThread (obj : Nat)
  deriving DecidableEq, Repr

/-- The global variables of `scheduler.c`, the thread objects and their timers. -/
structure Kernel where
  thread : Tid → Thread
  tlist : ListHead → List Tid
  rtThreadReadyPriorityGroup : BitVec 32
  rtCurrentThread : Option Tid
  rtCurrentPriority : Nat
  rtSchedulerLockNest : Int
  threadTimer : Timers Tid

namespace Kernel

/-- Overwrite one thread object. -/
def setThread (k : Kernel) (t : Tid) (th : Thread) : Kernel :=
  { k with thread := Function.update k.thread t th }

/-- `rt_list_remove` of the node of `t`. -/
def rtListRemove (k : Kernel) (t : Tid) : Kernel :=
  { k with tlist := Lanes.remove k.tlist t }

/-- `rt_list_insert_before` a list head: the node becomes the last one. -/
def rtListInsertBefore (k : Kernel) (h : ListHead) (t : Tid) : Kernel :=
  { k with tlist := Lanes.put k.tlist h (k.tlist h ++ [t]) }

/-- `rt_list_insert_after` a list head: the node becomes the first one. -/
def rtListInsertAfter (k : Kernel) (h : ListHead) (t : Tid) : Kernel :=
  { k with tlist := Lanes.put k.tlist h (t :: k.tlist h) }

/-! ## scheduler.c -/

/-- `rt_schedule_insert_thread`. -/
def rtScheduleInsertThread (k : Kernel) (t : Tid) : Kernel :=
  let k := k.setThread t { k.thread t with stat := .ready }
  let k := k.rtListInsertBefore (.priorityTable (k.thread t).currentPriority) t
  { k with
    rtThreadReadyPriorityGroup := k.rtThreadReadyPriorityGroup ||| (k.thread t).numberMask }

/-- `rt_schedule_remove_thread`. -/
def rtScheduleRemoveThread (k : Kernel) (t : Tid) : Kernel :=
  let k := k.rtListRemove t
  if k.tlist (.priorityTable (k.thread t).currentPriority) = [] then
    { k with
      rtThreadReadyPriorityGroup :=
        k.rtThreadReadyPriorityGroup &&& ~~~(k.thread t).numberMask }
  else
    k

/-- The highest ready priority and the first thread of its list. There is none when the
group is zero (the source then reads `rt_thread_priority_table[-1]`) or the list is
empty (it then takes the list head for a thread). -/
def toThread (k : Kernel) : Option (Nat × Tid) :=
  match rtFfs k.rtThreadReadyPriorityGroup with
  | 0 => none
  | p + 1 =>
    match k.tlist (.priorityTable p) with
    | [] => none
    | t :: _ => some (p, t)

/-- `rt_schedule`. The context switch itself is left to the steps of the threads. -/
def rtSchedule (k : Kernel) : Option Kernel :=
  if k.rtSchedulerLockNest = 0 then do
    let (highestReadyPriority, toThread) ← k.toThread
    if some toThread ≠ k.rtCurrentThread then
      return { k with
        rtCurrentPriority := highestReadyPriority
        rtCurrentThread := some toThread }
    else
      return k
  else
    some k

/-- `rt_system_scheduler_start`. -/
def rtSystemSchedulerStart (k : Kernel) : Option Kernel := do
  let (_, toThread) ← k.toThread
  return { k with rtCurrentThread := some toThread }

/-- `rt_enter_critical`: the nesting level is an `rt_int16_t`. -/
def rtEnterCritical (k : Kernel) : Kernel :=
  { k with rtSchedulerLockNest := Int.bmod (k.rtSchedulerLockNest + 1) 65536 }

/-- `rt_exit_critical`: the result says whether it goes on with `rt_schedule`. -/
def rtExitCritical (k : Kernel) : Kernel × Bool :=
  let k := { k with rtSchedulerLockNest := Int.bmod (k.rtSchedulerLockNest - 1) 65536 }
  if k.rtSchedulerLockNest ≤ 0 then
    ({ k with rtSchedulerLockNest := 0 }, true)
  else
    (k, false)

/-! ## thread.c -/

/-- `rt_thread_suspend`. -/
def rtThreadSuspend (k : Kernel) (t : Tid) : Kernel × Err :=
  if (k.thread t).stat ≠ .ready then
    (k, .error)
  else
    let k := k.setThread t { k.thread t with stat := .suspend }
    (k.rtScheduleRemoveThread t, .eok)

/-- `rt_thread_resume`. -/
def rtThreadResume (k : Kernel) (t : Tid) : Kernel × Err :=
  if (k.thread t).stat ≠ .suspend then
    (k, .error)
  else
    let k := k.rtListRemove t
    let k := { k with threadTimer := (k.threadTimer.rtTimerStop t).1 }
    (k.rtScheduleInsertThread t, .eok)

/-- `rt_thread_startup`. The result says whether it goes on with `rt_schedule`. -/
def rtThreadStartup (k : Kernel) (t : Tid) : Option (Kernel × Bool) := do
  rtAssert ((k.thread t).stat = .init)
  let k := k.setThread t { k.thread t with currentPriority := (k.thread t).initPriority }
  let k := k.setThread t
    { k.thread t with numberMask := 1#32 <<< (k.thread t).currentPriority }
  let k := k.setThread t { k.thread t with stat := .suspend }
  let (k, _) := k.rtThreadResume t
  return (k, k.rtCurrentThread.isSome)

/-- `rt_thread_yield` of the running thread. In a ring of one node the neighbours of the
node are the same, so `next != prev` says that the list has another thread. -/
def rtThreadYield (k : Kernel) (t : Tid) : Kernel × Bool :=
  let table := ListHead.priorityTable (k.thread t).currentPriority
  if (k.thread t).stat = .ready ∧ 1 < (k.tlist table).length then
    ((k.rtListRemove t).rtListInsertBefore table t, true)
  else
    (k, false)

/-- `rt_thread_sleep` of the running thread up to its call of `rt_schedule`. -/
def rtThreadSleep (k : Kernel) (t : Tid) (tick : Nat) : Option Kernel := do
  let (k, _) := k.rtThreadSuspend t
  let timers := k.threadTimer.rtTimerSetTime t tick
  let (timers, _) ← timers.rtTimerStart t
  return { k with threadTimer := timers }

/-- The end of `rt_thread_sleep`, when the thread runs again. -/
def rtThreadSleepReturn (k : Kernel) (t : Tid) : Kernel :=
  if (k.thread t).error = .etimeout then
    k.setThread t { k.thread t with error := .eok }
  else
    k

/-- `rt_thread_timeout` up to its call of `rt_schedule`. -/
def rtThreadTimeout (k : Kernel) (t : Tid) : Option Kernel := do
  rtAssert ((k.thread t).stat = .suspend)
  let k := k.setThread t { k.thread t with error := .etimeout }
  let k := k.rtListRemove t
  return k.rtScheduleInsertThread t

/-- The timer of thread `t` expires: what `rt_timer_check` does around the timeout function
`rt_thread_timeout`. The tick at which this happens is left open. -/
def expire (k : Kernel) (t : Tid) : Option Kernel := do
  rtAssert (t ∈ k.threadTimer.timerList)
  let k := { k with threadTimer := k.threadTimer.rtTimerRemove t }
  let k ← k.rtThreadTimeout t
  let timers ← k.threadTimer.rearm t
  return { k with threadTimer := timers }

/-- `rt_thread_control` with `RT_THREAD_CTRL_CHANGE_PRIORITY`. -/
def rtThreadChangePriority (k : Kernel) (t : Tid) (arg : Nat) : Kernel :=
  if (k.thread t).stat = .ready then
    let k := k.rtScheduleRemoveThread t
    let k := k.setThread t
      { k.thread t with
        currentPriority := arg
        numberMask := 1#32 <<< arg }
    k.rtScheduleInsertThread t
  else
    k.setThread t
      { k.thread t with
        currentPriority := arg
        numberMask := 1#32 <<< arg }

/-- `rt_thread_exit` of the running thread up to its call of `rt_schedule`. -/
def rtThreadExit (k : Kernel) (t : Tid) : Kernel :=
  let k := k.rtScheduleRemoveThread t
  let k := k.setThread t { k.thread t with stat := .close }
  let k := { k with threadTimer := k.threadTimer.rtTimerDetach t }
  if (k.thread t).isSystemObject ∧ ¬ (k.thread t).cleanup then
    k
  else
    k.rtListInsertAfter .defunct t

end Kernel

end RtThread
