-- SUMMARY: All IPC objects in one system, and the thread timers.
import ZigbeeGateway.Kernel.Semaphore
import ZigbeeGateway.Kernel.MutexRun
import ZigbeeGateway.Kernel.EventFlags
import ZigbeeGateway.Kernel.MailboxRun
import ZigbeeGateway.Kernel.MessageQueue
import ZigbeeGateway.Kernel.WaitTimer

/-!
# IPC objects, sleeping threads and the tick

One system with any number of semaphores, mutexes, event objects, mailboxes and message
queues over the same threads and timers. One step is one critical section of a call, a
priority change, a yield, or a tick with its `rt_timer_check`. The scheduler's choice is left
open: any ready thread may run next.

A call is related to the threads by its `Section`, so that only one rule per kind of section
is needed for the invariant of `WaitTimer`.
-/

namespace RtThread

open Run WaitTimer Function
open Option (bind_eq_some_iff ite_none_right_eq_some map_eq_some_iff)

/-- The outcome with another return value. -/
def Outcome.map {β γ : Type} (f : β → γ) : Outcome β → Outcome γ
  | .returned result => .returned (f result)
  | .blocked timeout tickDelta => .blocked timeout tickDelta

namespace IpcRun

/-! ## The system -/

/-- A suspended call, with the local variables that its loop needs. -/
inductive Call where
  | semTake (n : Nat)
  | mutexTake (n : Nat)
  | eventRecv (n : Nat)
  | mbSend (n : Nat) (value : BitVec 32) (timeout : Int) (tickDelta : Nat)
  | mbRecv (n : Nat) (timeout : Int) (tickDelta : Nat)
  | mqRecv (n : Nat) (timeout : Int) (tickDelta : Nat)
  | sleep
  deriving DecidableEq

/-- The calls, the point where a suspended call goes on, and the tick. `mqFetch`, `mqLink` and
`mqFree` are the critical sections of the message queue calls around the copy of a message,
on any slot. `resumeAllRound` is a round of `rt_ipc_list_resume_all` when an object is
detached or deleted. `timerCheckRound` is a round of `rt_timer_check` on its own, since the
timeout function of another timer may make any of the calls between two rounds. -/
inductive Event where
  | semTake (n : Nat) (t : Tid) (time : Int)
  | semRelease (n : Nat)
  | semReset (n value : Nat)
  | mutexTake (n : Nat) (t : Tid) (time : Int)
  | mutexRelease (n : Nat) (t : Tid)
  | eventSend (n : Nat) (set : BitVec 32)
  | eventRecv (n : Nat) (t : Tid) (set : BitVec 32) (option : BitVec 8) (timeout : Int)
  | eventReset (n : Nat)
  | mbSend (n : Nat) (t : Tid) (value : BitVec 32) (timeout : Int)
  | mbRecv (n : Nat) (t : Tid) (timeout : Int)
  | mbReset (n : Nat)
  | mqFetch (n size : Nat)
  | mqLink (n : Nat) (urgent : Bool) (msg : Nat)
  | mqRecv (n : Nat) (t : Tid) (size : Nat) (timeout : Int)
  | mqRecvIsr (n size : Nat)
  | mqFree (n msg : Nat)
  | mqReset (n : Nat)
  | resumeAllRound (hd : ListHead)
  | sleep (t : Tid) (tick : Nat)
  | resume (t : Tid)
  | changePriority (t : Tid) (arg : Fin 32)
  | yield (t : Tid)
  | tick
  | timerCheckRound

structure Sys where
  kernel : Kernel
  sem : Nat → Sem
  mutex : Nat → Mutex
  event : Nat → RtEvent
  mb : Nat → Mailbox
  mq : Nat → MessageQueue
  /-- The suspended call of each thread, up to the point where it goes on. -/
  wait : Tid → Option (Wait Call)

namespace Sys

/-- A call that does not wait may come from any context, a waiting one from a ready thread that
is in no other call. -/
def MayCall (s : Sys) (t : Tid) (time : Int) : Prop :=
  time = 0 ∨ ((s.kernel.thread t).stat = .ready ∧ s.wait t = none)

instance (s : Sys) (t : Tid) (time : Int) : Decidable (s.MayCall t time) :=
  inferInstanceAs (Decidable (_ ∨ _))

/-- The end of a critical section of thread `t`. A call that is suspended says in which list and
for how long. -/
def after (s : Sys) (t : Tid) (k : Kernel) (call : Call) : Option (ListHead × Int) → Sys
  | none => { s with kernel := k }
  | some b => { s with kernel := k, wait := update s.wait t (some (waitOf call b)) }

def setKernel (s : Sys) (k : Kernel) : Sys := { s with kernel := k }

def setSem (s : Sys) (n : Nat) (sem : Sem) : Sys := { s with sem := update s.sem n sem }

def setMutex (s : Sys) (n : Nat) (mutex : Mutex) : Sys :=
  { s with mutex := update s.mutex n mutex }

def setEvent (s : Sys) (n : Nat) (event : RtEvent) : Sys :=
  { s with event := update s.event n event }

def setMb (s : Sys) (n : Nat) (mb : Mailbox) : Sys := { s with mb := update s.mb n mb }

def setMq (s : Sys) (n : Nat) (mq : MessageQueue) : Sys :=
  { s with mq := update s.mq n mq }

/-- A critical section of `rt_mb_send_wait`. -/
def afterMbSend (s : Sys) (n : Nat) (t : Tid) (value : BitVec 32) :
    Kernel × Mailbox × Outcome Err → Sys
  | (k, mb, .returned _) => (s.setMb n mb).setKernel k
  | (k, mb, .blocked timeout tickDelta) =>
    (s.setMb n mb).after t k (.mbSend n value timeout tickDelta)
      (some ((s.mb n).suspendSenderThread, timeout))

/-- A critical section of `rt_mb_recv`. -/
def afterMbRecv (s : Sys) (n : Nat) (t : Tid) : Kernel × Mailbox × Outcome Mailbox.Received → Sys
  | (k, mb, .returned _) => (s.setMb n mb).setKernel k
  | (k, mb, .blocked timeout tickDelta) =>
    (s.setMb n mb).after t k (.mbRecv n timeout tickDelta)
      (some ((s.mb n).parent.suspendThread, timeout))

/-- A critical section of `rt_mq_recv`. -/
def afterMqRecv (s : Sys) (n : Nat) (t : Tid) :
    Kernel × MessageQueue × Outcome (Except Err Nat) → Sys
  | (k, mq, .returned _) => (s.setMq n mq).setKernel k
  | (k, mq, .blocked timeout tickDelta) =>
    (s.setMq n mq).after t k (.mqRecv n timeout tickDelta)
      (some ((s.mq n).parent.suspendThread, timeout))

/-- The thread runs again: its call is no longer suspended. -/
def leave (s : Sys) (t : Tid) : Sys := { s with wait := update s.wait t none }

/-- A suspended call goes on. The calls without a loop return, and a sleeping thread clears its
error number. -/
def goOn (s : Sys) (t : Tid) : Call → Option Sys
  | .semTake _ => some s
  | .mutexTake _ => some s
  | .eventRecv _ => some s
  | .mbSend n value timeout tickDelta =>
    (Mailbox.rtMbSendResume s.kernel (s.mb n) t value timeout tickDelta).map
      (s.afterMbSend n t value)
  | .mbRecv n timeout tickDelta =>
    (Mailbox.rtMbRecvResume s.kernel (s.mb n) t timeout tickDelta).map (s.afterMbRecv n t)
  | .mqRecv n timeout tickDelta =>
    (MessageQueue.rtMqRecvResume s.kernel (s.mq n) t timeout tickDelta).map (s.afterMqRecv n t)
  | .sleep => some (s.setKernel (s.kernel.rtThreadSleepReturn t))

end Sys

def step (s : Sys) : Event → Option Sys
  | .semTake n t time => do
    rtAssert (s.MayCall t time)
    let (k, sem, r) ← Sem.rtSemTake s.kernel (s.sem n) t time
    return (s.setSem n sem).after t k (.semTake n)
      (if r = none then some ((s.sem n).parent.suspendThread, time) else none)
  | .semRelease n => do
    let (k, sem) ← Sem.rtSemRelease s.kernel (s.sem n)
    return (s.setSem n sem).setKernel k
  | .semReset n value => do
    let (k, sem) ← Sem.rtSemReset s.kernel (s.sem n) value
    return (s.setSem n sem).setKernel k
  | .mutexTake n t time => do
    rtAssert (s.MayCall t time)
    let (k, mutex, r) ← Mutex.rtMutexTake s.kernel (s.mutex n) t time
    return (s.setMutex n mutex).after t k (.mutexTake n)
      (if r = none then some ((s.mutex n).parent.suspendThread, time) else none)
  | .mutexRelease n t => do
    let (k, mutex, _) ← Mutex.rtMutexRelease s.kernel (s.mutex n) t
    return (s.setMutex n mutex).setKernel k
  | .eventSend n set =>
    let (k, event, _) := RtEvent.rtEventSend s.kernel (s.event n) set
    some ((s.setEvent n event).setKernel k)
  | .eventRecv n t set option timeout => do
    rtAssert (s.MayCall t timeout)
    let (k, event, r) ← RtEvent.rtEventRecv s.kernel (s.event n) t set option timeout
    return (s.setEvent n event).after t k (.eventRecv n)
      (if r = none then some ((s.event n).parent.suspendThread, timeout) else none)
  | .eventReset n => do
    let (k, event) ← RtEvent.rtEventReset s.kernel (s.event n)
    return (s.setEvent n event).setKernel k
  | .mbSend n t value timeout => do
    rtAssert (s.MayCall t timeout)
    (Mailbox.rtMbSendWait s.kernel (s.mb n) t value timeout).map (s.afterMbSend n t value)
  | .mbRecv n t timeout => do
    rtAssert (s.MayCall t timeout)
    (Mailbox.rtMbRecv s.kernel (s.mb n) t timeout).map (s.afterMbRecv n t)
  | .mbReset n => do
    let (k, mb) ← Mailbox.rtMbReset s.kernel (s.mb n)
    return (s.setMb n mb).setKernel k
  | .mqFetch n size => do
    let (mq, _) ← (s.mq n).fetchFree size
    return s.setMq n mq
  | .mqLink n urgent msg =>
    (if urgent then MessageQueue.rtMqUrgentLink s.kernel (s.mq n) msg
      else MessageQueue.rtMqSendLink s.kernel (s.mq n) msg).map fun (k, mq) =>
        (s.setMq n mq).setKernel k
  | .mqRecv n t size timeout => do
    rtAssert (s.MayCall t timeout)
    (MessageQueue.rtMqRecv s.kernel (s.mq n) (.thread t) size timeout).map (s.afterMqRecv n t)
  | .mqRecvIsr n size => do
    let (k, mq, _) ← MessageQueue.rtMqRecv s.kernel (s.mq n) (.isr 0) size 0
    return (s.setMq n mq).setKernel k
  | .mqFree n msg => some (s.setMq n ((s.mq n).putFree msg))
  | .mqReset n => do
    let (k, mq) ← MessageQueue.rtMqReset s.kernel (s.mq n)
    return (s.setMq n mq).setKernel k
  | .resumeAllRound hd =>
    match s.kernel.tlist hd with
    | [] => none
    | t :: _ =>
      let k := s.kernel.setThread t { s.kernel.thread t with error := .error }
      some (s.setKernel (k.rtThreadResume t).1)
  | .sleep t tick => do
    rtAssert ((s.kernel.thread t).stat = .ready ∧ s.wait t = none)
    let k ← s.kernel.rtThreadSleep t tick
    return { s with
      kernel := k
      wait := update s.wait t (some ⟨.sleep, none, true⟩) }
  | .resume t => do
    rtAssert ((s.kernel.thread t).stat = .ready)
    let w ← s.wait t
    (s.leave t).goOn t w.call
  | .changePriority t arg => some (s.setKernel (s.kernel.rtThreadChangePriority t arg))
  | .yield t => some (s.setKernel (s.kernel.rtThreadYield t).1)
  | .tick => do
    let k ← rtTickIncrease s.kernel
    return s.setKernel k
  | .timerCheckRound =>
    match s.kernel.threadTimer.timerList with
    | [] => none
    | t :: _ => do
      rtAssert (Word.sub32 s.kernel.threadTimer.rtTick (s.kernel.threadTimer.timer t).timeoutTick <
        rtTickMax / 2)
      let k ← s.kernel.expire t
      return s.setKernel k

/-- IPC objects and threads after the start: no thread is suspended, no thread timer runs, and no
mutex is taken. -/
structure Initial (s : Sys) : Prop where
  wf : s.kernel.WF
  stat : ∀ t, (s.kernel.thread t).stat ≠ .suspend
  timerList : s.kernel.threadTimer.timerList = []
  activated : ∀ t, (s.kernel.threadTimer.timer t).activated = false
  oneShot : ∀ t, (s.kernel.threadTimer.timer t).periodic = false
  mutex : ∀ n, (s.mutex n).owner = none ∧ (s.mutex n).hold = 0

/-! ## The calls as sections -/

variable {k k' : Kernel} {t : Tid} {hd : ListHead}

variable {k1 : Kernel} {u : Tid} {time : Int} {flag : IpcFlag} {own moved : Tid → Prop}

theorem calm_rtIpcListResume (hk : k.rtIpcListResume hd = some k') : Calm own moved k k' := by
  unfold Kernel.rtIpcListResume at hk
  split at hk
  · cases hk
  next u rest _ =>
    cases hk
    exact .single (.resume k u)

/-- A round of `rt_ipc_list_resume_all`. -/
theorem calm_resumeAllRound (k : Kernel) (u : Tid) :
    Calm own moved k ((k.setError u .error).rtThreadResume u).1 :=
  (Calm.setError k u (.inr (.inl rfl))).tail (.resume _ u)

theorem calm_resumeAllLoop {fuel : Nat} (hk : Kernel.resumeAllLoop hd fuel k = some k') :
    Calm own moved k k' := by
  induction fuel generalizing k with
  | zero =>
    obtain ⟨-, ⟨⟩⟩ := ite_none_right_eq_some.mp hk
    exact .refl
  | succ fuel ih =>
    rw [Kernel.resumeAllLoop] at hk
    split at hk
    · cases hk
      exact .refl
    next u rest _ => exact (calm_resumeAllRound k u).trans (ih hk)

theorem calm_rtIpcListResumeAll (hk : k.rtIpcListResumeAll hd = some k') : Calm own moved k k' :=
  calm_resumeAllLoop hk

variable {mutex : Mutex} {mb : Mailbox}

theorem section_rtSemTake {sem sem' : Sem} {r : Option Err}
    (h : Sem.rtSemTake k sem t time = some (k', sem', r)) :
    Section own moved k k' t time sem.parent.flag
      (if r = none then some (sem.parent.suspendThread, time) else none) ∧
      sem'.parent = sem.parent := by
  obtain ⟨-, ⟨⟩⟩ | ⟨-, -, ⟨⟩⟩ | ⟨-, htime, k1, hblock, ⟨⟩⟩ := Sem.rtSemTake_cases h
  · exact ⟨.calm .refl, rfl⟩
  · exact ⟨.calm .refl, rfl⟩
  · exact ⟨.blocks (.eok k t) trivial htime hblock, rfl⟩

theorem calm_rtSemRelease {sem sem' : Sem} (h : Sem.rtSemRelease k sem = some (k', sem')) :
    Calm own moved k k' ∧ sem'.parent = sem.parent := by
  unfold Sem.rtSemRelease at h
  split at h
  · obtain ⟨k1, hres, ⟨⟩⟩ := bind_eq_some_iff.mp h
    exact ⟨calm_rtIpcListResume hres, rfl⟩
  · cases h
    exact ⟨.refl, rfl⟩

theorem calm_rtSemReset {sem sem' : Sem} {value : Nat}
    (h : Sem.rtSemReset k sem value = some (k', sem')) : Calm own moved k k' ∧ sem'.parent = sem.parent := by
  obtain ⟨k1, hres, ⟨⟩⟩ := bind_eq_some_iff.mp h
  exact ⟨calm_rtIpcListResumeAll hres, rfl⟩

theorem calm_inherit {owner : Tid} (h : k.WF)
    (hmoved : (k.thread t).currentPriority < (k.thread owner).currentPriority → moved owner) :
    Calm own moved k (Mutex.inherit k owner t) := by
  unfold Mutex.inherit
  split
  next hlt => exact .single (.changePriority k owner _ (h.currentPriority t) fun _ => hmoved hlt)
  · exact .refl

/-- The owner of a mutex had a priority when it took it. -/
structure MutexOk (mutex : Mutex) : Prop where
  hold : mutex.hold < 256
  priority : ∀ t, mutex.owner = some t → mutex.originalPriority < 32

theorem section_rtMutexTake {mutex' : Mutex} {r : Option Err} (hwf : k.WF) (hown : own t)
    (hm : MutexOk mutex) (hmoved : ∀ u, mutex.owner = some u → time ≠ 0 →
      (k.thread t).currentPriority < (k.thread u).currentPriority → moved u)
    (h : Mutex.rtMutexTake k mutex t time = some (k', mutex', r)) :
    Section own moved k k' t time mutex.parent.flag
      (if r = none then some (mutex.parent.suspendThread, time) else none) ∧
      mutex'.parent = mutex.parent ∧ MutexOk mutex' := by
  have herror : Calm own moved k _ := .eok k t
  have hwf' := hwf.setError t .eok
  obtain ⟨-, ⟨⟩⟩ | ⟨-, -, ⟨⟩⟩ | ⟨⟨⟩⟩ | ⟨owner, k1, -, howner, htime, hblock, ⟨⟩⟩ :=
    Mutex.rtMutexTake_cases rfl h
  · exact ⟨.calm herror, rfl, Nat.mod_lt _ (by decide), hm.priority⟩
  · exact ⟨.calm herror, rfl, Nat.mod_lt _ (by decide), fun _ _ => hwf'.currentPriority t⟩
  · exact ⟨.calm (herror.trans (Calm.setError _ t (.inr (.inr hown)))), rfl, hm⟩
  · refine ⟨.blocks (herror.trans (calm_inherit hwf' fun hlt => hmoved owner howner htime ?_)) trivial
      htime hblock, rfl, hm⟩
    have hsame := currentPriority_of_priorities (Kernel.setError_priorities k t .eok)
    rwa [hsame, hsame] at hlt

theorem calm_restore (hm : mutex.originalPriority < 32)
    (hmoved : mutex.originalPriority ≠ (k.thread t).currentPriority → moved t) :
    Calm own moved k (Mutex.restore k mutex t) := by
  unfold Mutex.restore
  split
  · exact .single (.changePriority k t _ hm hmoved)
  · exact .refl

theorem calm_rtMutexRelease {mutex' : Mutex} {r : Err} (hwf : k.WF) (hm : MutexOk mutex)
    (hmoved : mutex.owner = some t → mutex.hold = 1 →
      mutex.originalPriority ≠ (k.thread t).currentPriority → moved t)
    (h : Mutex.rtMutexRelease k mutex t = some (k', mutex', r)) :
    Calm own moved k k' ∧ mutex'.parent = mutex.parent ∧ MutexOk mutex' := by
  obtain ⟨-, ⟨⟩⟩ | ⟨-, -, ⟨⟩⟩ | ⟨howner, hhold, -, ⟨⟩⟩ | ⟨u, rest, k1, howner, hhold, -, hres, ⟨⟩⟩ :=
    Mutex.rtMutexRelease_cases rfl hm.hold h
  · exact ⟨.setError k t (.inr (.inl rfl)), rfl, hm⟩
  · exact ⟨.refl, rfl, Nat.mod_lt _ (by decide), hm.priority⟩
  · exact ⟨calm_restore (hm.priority t howner) (hmoved howner hhold), rfl, by simp, by simp⟩
  · have hwf' := Mutex.restore_wf hwf t (hm.priority t howner)
    exact ⟨(calm_restore (hm.priority t howner) (hmoved howner hhold)).trans (calm_rtIpcListResume hres),
      rfl, by simp, fun _ _ => hwf'.currentPriority u⟩

theorem calm_sendLoop (k : Kernel) (set : BitVec 32) (l : List Tid) :
    Calm own moved k (RtEvent.sendLoop k set l).1 := by
  induction l generalizing k set with
  | nil => exact .refl
  | cons u rest ih =>
    rcases RtEvent.received_spec (k.thread u) set with ⟨hrec, -⟩ | ⟨bits, hrec, -⟩
    · rw [RtEvent.sendLoop, hrec]
      exact ih k set
    · rw [RtEvent.sendLoop, hrec]
      have hedit : Calm own moved k (k.setThread u { k.thread u with eventSet := bits }) :=
        .single (.edit k u _ rfl rfl rfl rfl (.inl rfl))
      exact (hedit.tail (.resume _ u)).trans (ih _ _)

theorem calm_rtEventSend (k : Kernel) (event : RtEvent) (set : BitVec 32) :
    Calm own moved k (RtEvent.rtEventSend k event set).1 ∧
      (RtEvent.rtEventSend k event set).2.1.parent = event.parent := by
  unfold RtEvent.rtEventSend
  split
  · exact ⟨.refl, rfl⟩
  · exact ⟨calm_sendLoop .., rfl⟩

theorem section_rtEventRecv {event event' : RtEvent} {set : BitVec 32} {option : BitVec 8}
    {timeout : Int} {r : Option RtEvent.Recv} (hown : own t)
    (h : RtEvent.rtEventRecv k event t set option timeout = some (k', event', r)) :
    Section own moved k k' t timeout event.parent.flag
      (if r = none then some (event.parent.suspendThread, timeout) else none) ∧
      event'.parent = event.parent := by
  have herror : Calm own moved k _ := .eok k t
  have hcases := RtEvent.rtEventRecv_cases rfl h
  simp only [Prod.mk.injEq] at hcases
  obtain ⟨ret, rfl, rfl, rfl⟩ | ⟨ret, -, rfl, hevent, rfl⟩ | ⟨ret, rfl, rfl, rfl⟩ |
    ⟨k1, -, htime, hblock, rfl, rfl, rfl⟩ := hcases
  · exact ⟨.calm .refl, rfl⟩
  · refine ⟨.calm herror, ?_⟩
    rw [hevent]
  · exact ⟨.calm (herror.trans (Calm.setError _ t (.inr (.inr hown)))), rfl⟩
  · refine ⟨.blocks (herror.tail ?_) trivial htime hblock, rfl⟩
    exact .edit _ t _ rfl rfl rfl rfl (.inl rfl)

theorem calm_rtEventReset {event event' : RtEvent}
    (h : RtEvent.rtEventReset k event = some (k', event')) :
    Calm own moved k k' ∧ event'.parent = event.parent := by
  obtain ⟨k1, hres, ⟨⟩⟩ := bind_eq_some_iff.mp h
  exact ⟨calm_rtIpcListResumeAll hres, rfl⟩

theorem calm_resumeFirst (hk : Mailbox.resumeFirst k hd = some k') : Calm own moved k k' := by
  unfold Mailbox.resumeFirst at hk
  split at hk
  · exact calm_rtIpcListResume hk
  · cases hk
    exact .refl

/-- The list and the waiting time of a blocked outcome. -/
def blockedIn {β : Type} (hd : ListHead) : Outcome β → Option (ListHead × Int)
  | .returned _ => none
  | .blocked timeout _ => some (hd, timeout)

/-- The error number that a section of `rt_mq_recv` leads to. -/
def mqResult : Except Err Nat → Err
  | .ok _ => .eok
  | .error err => err

/-- A round of the loop of thread `t`, with the time `timeout` left: the condition holds and the
call succeeds, or no time is left, or the thread suspends itself. -/
inductive Looks (k k' : Kernel) (t : Tid) (holds : Bool) (timeout : Int) : Outcome Err → Prop
  | found (h : holds = true) : Looks k k' t holds timeout (.returned .eok)
  | gaveUp {err : Err} (h : holds = false) (htime : timeout = 0) :
      Looks k k' t holds timeout (.returned err)
  | waits {hd : ListHead} {flag : IpcFlag} {tickDelta : Nat} (h : holds = false)
      (htime : timeout ≠ 0)
      (hk : ((k.setError t .eok).rtIpcListSuspend hd t flag).startThreadTimer
        t timeout = some k')
      (htick : 0 < timeout → tickDelta =
        ((k.setError t .eok).rtIpcListSuspend hd t flag).threadTimer.rtTick) :
      Looks k k' t holds timeout (.blocked timeout tickDelta)

section Mailboxes

variable {mb mb' : Mailbox} {value : BitVec 32} {timeout : Int} {tickDelta : Nat}

theorem section_rtMbSendLoop (own moved : Tid → Prop) {r : Outcome Err}
    (h : Mailbox.rtMbSendLoop k mb t value timeout tickDelta = some (k', mb', r)) :
    Looks k k' t (mb.entry != mb.size) timeout r ∧
      Section own moved k k' t timeout mb.parent.flag (blockedIn mb.suspendSenderThread r) ∧
      mb'.parent = mb.parent := by
  have herror : Calm own moved k _ := .eok k t
  unfold Mailbox.rtMbSendLoop at h
  split at h
  next hfull =>
    split at h
    next htime =>
      cases h
      exact ⟨.gaveUp (by simp [hfull]) htime, .calm herror, rfl⟩
    next htime =>
      obtain ⟨k1, hblock, ⟨⟩⟩ := bind_eq_some_iff.mp h
      exact ⟨.waits (by simp [hfull]) htime hblock fun hpos => if_pos hpos,
        .blocks herror trivial htime hblock, rfl⟩
  next hfull =>
    obtain ⟨k1, hres, ⟨⟩⟩ := bind_eq_some_iff.mp h
    exact ⟨.found (by simpa using hfull), .calm (calm_resumeFirst hres), rfl⟩

theorem section_rtMbSendWait {r : Outcome Err}
    (h : Mailbox.rtMbSendWait k mb t value timeout = some (k', mb', r)) :
    Section own moved k k' t timeout mb.parent.flag (blockedIn mb.suspendSenderThread r) ∧
      mb'.parent = mb.parent := by
  unfold Mailbox.rtMbSendWait at h
  split at h
  · cases h
    exact ⟨.calm .refl, rfl⟩
  · exact (section_rtMbSendLoop own moved h).2

theorem section_rtMbSendResume {r : Outcome Err}
    (h : Mailbox.rtMbSendResume k mb t value timeout tickDelta = some (k', mb', r)) :
    ∃ time, Section own moved k k' t time mb.parent.flag (blockedIn mb.suspendSenderThread r) ∧
      mb'.parent = mb.parent := by
  unfold Mailbox.rtMbSendResume at h
  split at h
  · cases h
    exact ⟨0, .calm .refl, rfl⟩
  · exact ⟨_, (section_rtMbSendLoop own moved h).2⟩

variable {r : Outcome Mailbox.Received}

theorem section_rtMbRecvLoop (own moved : Tid → Prop) (hown : mb.entry = 0 → timeout = 0 → own t)
    (h : Mailbox.rtMbRecvLoop k mb t timeout tickDelta = some (k', mb', r)) :
    Looks k k' t (mb.entry != 0) timeout (r.map Mailbox.Received.result) ∧
      Section own moved k k' t timeout mb.parent.flag (blockedIn mb.parent.suspendThread r) ∧
      mb'.parent = mb.parent := by
  have herror : Calm own moved k _ := .eok k t
  unfold Mailbox.rtMbRecvLoop at h
  split at h
  next hentry =>
    split at h
    next htime =>
      cases h
      refine ⟨.gaveUp (by simp [hentry]) htime, ?_, rfl⟩
      exact .calm (herror.trans (Calm.setError _ t (.inr (.inr (hown hentry htime)))))
    next htime =>
      obtain ⟨k1, hblock, ⟨⟩⟩ := bind_eq_some_iff.mp h
      exact ⟨.waits (by simp [hentry]) htime hblock fun hpos => if_pos hpos,
        .blocks herror trivial htime hblock, rfl⟩
  next hentry =>
    obtain ⟨k1, hres, ⟨⟩⟩ := bind_eq_some_iff.mp h
    exact ⟨.found (by simpa using hentry), .calm (calm_resumeFirst hres), rfl⟩

theorem section_rtMbRecv
    (h : Mailbox.rtMbRecv k mb t timeout = some (k', mb', r)) :
    Section own moved k k' t timeout mb.parent.flag (blockedIn mb.parent.suspendThread r) ∧
      mb'.parent = mb.parent := by
  unfold Mailbox.rtMbRecv at h
  split at h
  · cases h
    exact ⟨.calm .refl, rfl⟩
  next hwait => exact (section_rtMbRecvLoop own moved (fun hentry htime => absurd ⟨hentry, htime⟩ hwait) h).2

theorem section_rtMbRecvResume (hown : own t)
    (h : Mailbox.rtMbRecvResume k mb t timeout tickDelta = some (k', mb', r)) :
    ∃ time, Section own moved k k' t time mb.parent.flag (blockedIn mb.parent.suspendThread r) ∧
      mb'.parent = mb.parent := by
  unfold Mailbox.rtMbRecvResume at h
  split at h
  · cases h
    exact ⟨0, .calm .refl, rfl⟩
  · exact ⟨_, (section_rtMbRecvLoop own moved (fun _ _ => hown) h).2⟩

theorem calm_rtMbReset (h : Mailbox.rtMbReset k mb = some (k', mb')) :
    Calm own moved k k' ∧ mb'.parent = mb.parent := by
  obtain ⟨k1, hres, h⟩ := bind_eq_some_iff.mp h
  obtain ⟨k2, hres', ⟨⟩⟩ := bind_eq_some_iff.mp h
  exact ⟨(calm_rtIpcListResumeAll hres).trans (calm_rtIpcListResumeAll hres'), rfl⟩

end Mailboxes

section MessageQueues

variable {mq mq' : MessageQueue} {timeout : Int} {tickDelta : Nat} {r : Outcome (Except Err Nat)}

theorem section_rtMqRecvLoop (own moved : Tid → Prop) (hown : mq.entry = 0 → timeout = 0 → own t)
    (h : MessageQueue.rtMqRecvLoop k mq (.thread t) timeout tickDelta = some (k', mq', r)) :
    Looks k k' t (mq.entry != 0) timeout (r.map mqResult) ∧
      Section own moved k k' t timeout mq.parent.flag (blockedIn mq.parent.suspendThread r) ∧
      mq'.parent = mq.parent := by
  have herror : Calm own moved k _ := .eok k t
  unfold MessageQueue.rtMqRecvLoop at h
  split at h
  next hentry =>
    obtain ⟨u, hu, h⟩ := bind_eq_some_iff.mp h
    obtain rfl : t = u := Option.some.inj hu
    split at h
    next htime =>
      cases h
      refine ⟨.gaveUp (by simp [hentry]) htime, ?_, rfl⟩
      exact .calm (herror.trans (Calm.setError _ t (.inr (.inr (hown hentry htime)))))
    next htime =>
      obtain ⟨k1, hblock, ⟨⟩⟩ := bind_eq_some_iff.mp h
      exact ⟨.waits (by simp [hentry]) htime hblock fun hpos => if_pos hpos,
        .blocks herror trivial htime hblock, rfl⟩
  next hentry =>
    obtain ⟨msg, -, ⟨⟩⟩ := bind_eq_some_iff.mp h
    exact ⟨.found (by simpa using hentry), .calm .refl, rfl⟩

variable {size : Nat}

theorem section_rtMqRecv
    (h : MessageQueue.rtMqRecv k mq (.thread t) size timeout = some (k', mq', r)) :
    Section own moved k k' t timeout mq.parent.flag (blockedIn mq.parent.suspendThread r) ∧
      mq'.parent = mq.parent := by
  obtain ⟨-, h⟩ := rtAssert_bind_eq_some.mp h
  split at h
  · cases h
    exact ⟨.calm .refl, rfl⟩
  next hwait => exact (section_rtMqRecvLoop own moved (fun hentry htime => absurd ⟨hentry, htime⟩ hwait) h).2

theorem section_rtMqRecvResume (hown : own t)
    (h : MessageQueue.rtMqRecvResume k mq t timeout tickDelta = some (k', mq', r)) :
    ∃ time, Section own moved k k' t time mq.parent.flag (blockedIn mq.parent.suspendThread r) ∧
      mq'.parent = mq.parent := by
  unfold MessageQueue.rtMqRecvResume at h
  split at h
  · cases h
    exact ⟨0, .calm .refl, rfl⟩
  · exact ⟨_, (section_rtMqRecvLoop own moved (fun _ _ => hown) h).2⟩

/-- Interrupt handlers do not wait and have no thread to edit. -/
theorem rtMqRecv_isr (h : MessageQueue.rtMqRecv k mq (.isr 0) size 0 = some (k', mq', r)) :
    k' = k ∧ mq'.parent = mq.parent := by
  obtain ⟨-, h⟩ := rtAssert_bind_eq_some.mp h
  split at h
  · cases h
    exact ⟨rfl, rfl⟩
  next hentry =>
    have hentry : mq.entry ≠ 0 := fun hzero => hentry ⟨hzero, rfl⟩
    rw [MessageQueue.rtMqRecvLoop, if_neg hentry] at h
    obtain ⟨msg, -, ⟨⟩⟩ := bind_eq_some_iff.mp h
    exact ⟨rfl, rfl⟩

theorem calm_resumeReceiver (h : MessageQueue.resumeReceiver k mq = some k') : Calm own moved k k' := by
  unfold MessageQueue.resumeReceiver at h
  split at h
  · exact calm_rtIpcListResume h
  · cases h
    exact .refl

theorem fetchFree_parent {r : Except Err Nat} (h : mq.fetchFree size = some (mq', r)) :
    mq'.parent = mq.parent := by
  obtain ⟨-, h⟩ := rtAssert_bind_eq_some.mp h
  split at h
  · cases h
    rfl
  · split at h
    all_goals
      cases h
      rfl

theorem resetLoop_parent {fuel : Nat} {mq : MessageQueue}
    (h : MessageQueue.resetLoop fuel mq = some mq') : mq'.parent = mq.parent := by
  induction fuel generalizing mq with
  | zero =>
    obtain ⟨-, ⟨⟩⟩ := ite_none_right_eq_some.mp h
    rfl
  | succ fuel ih =>
    rw [MessageQueue.resetLoop] at h
    split at h
    · cases h
      rfl
    · have hparent := ih h
      exact hparent

theorem calm_rtMqReset (h : MessageQueue.rtMqReset k mq = some (k', mq')) :
    Calm own moved k k' ∧ mq'.parent = mq.parent := by
  obtain ⟨k1, hres, h⟩ := bind_eq_some_iff.mp h
  obtain ⟨mq1, hmq1, ⟨⟩⟩ := bind_eq_some_iff.mp h
  have hparent := resetLoop_parent hmq1
  exact ⟨calm_rtIpcListResumeAll hres, hparent⟩

end MessageQueues

/-! ## What a step does -/

/-- What the objects keep for as long as they exist: their addresses and flags. -/
structure Parents where
  sem : Nat → IpcObject
  mutex : Nat → IpcObject
  event : Nat → IpcObject
  mb : Nat → IpcObject
  mq : Nat → IpcObject

def Sys.parents (s : Sys) : Parents where
  sem n := (s.sem n).parent
  mutex n := (s.mutex n).parent
  event n := (s.event n).parent
  mb n := (s.mb n).parent
  mq n := (s.mq n).parent

/-- The wait lists of the objects, with the flags of their objects. -/
inductive ListOf (p : Parents) : ListHead → IpcFlag → Prop
  | sem (n : Nat) : ListOf p (p.sem n).suspendThread (p.sem n).flag
  | mutex (n : Nat) : ListOf p (p.mutex n).suspendThread (p.mutex n).flag
  | event (n : Nat) : ListOf p (p.event n).suspendThread (p.event n).flag
  | mb (n : Nat) : ListOf p (p.mb n).suspendThread (p.mb n).flag
  | mbSender (n : Nat) : ListOf p (.suspendSenderThread (p.mb n).obj) (p.mb n).flag
  | mq (n : Nat) : ListOf p (p.mq n).suspendThread (p.mq n).flag

/-- One object of a family is replaced by one with the same parent. -/
theorem parent_update {α : Type} {f : Nat → α} {parent : α → IpcObject} {n : Nat} {a : α}
    (ha : parent a = parent (f n)) :
    (fun m => parent (update f n a m)) = fun m => parent (f m) := by
  funext m
  rcases eq_or_ne m n with rfl | hne
  · rw [update_self, ha]
  · rw [update_of_ne hne]

variable {s s' : Sys} {n : Nat}

theorem parents_setSem {sem : Sem} (h : sem.parent = (s.sem n).parent) :
    (s.setSem n sem).parents = s.parents := by
  simp only [Sys.parents, Sys.setSem, parent_update h]

theorem parents_setMutex (h : mutex.parent = (s.mutex n).parent) :
    (s.setMutex n mutex).parents = s.parents := by
  simp only [Sys.parents, Sys.setMutex, parent_update h]

theorem parents_setEvent {event : RtEvent} (h : event.parent = (s.event n).parent) :
    (s.setEvent n event).parents = s.parents := by
  simp only [Sys.parents, Sys.setEvent, parent_update h]

theorem parents_setMb (h : mb.parent = (s.mb n).parent) : (s.setMb n mb).parents = s.parents := by
  simp only [Sys.parents, Sys.setMb, parent_update h]

theorem parents_setMq {mq : MessageQueue} (h : mq.parent = (s.mq n).parent) :
    (s.setMq n mq).parents = s.parents := by
  simp only [Sys.parents, Sys.setMq, parent_update h]

structure Inv (s : Sys) : Prop where
  wait : WaitTimer.Inv s.kernel s.wait
  mutex : ∀ n, MutexOk (s.mutex n)

theorem Initial.inv (h : Initial s) : Inv s := by
  refine ⟨⟨h.wf, ⟨?_, fun t => ?_, h.oneShot⟩, ?_, fun t ht => absurd ht (h.stat t)⟩, fun n => ?_⟩
  · simp [h.timerList]
  · simp [h.timerList, h.activated]
  · simp [h.timerList]
  · obtain ⟨howner, hhold⟩ := h.mutex n
    exact ⟨by simp [hhold], by simp [howner]⟩

/-- The waits after a section that suspends its thread or not. -/
def waitAfter (w : Tid → Option (Wait Call)) (t : Tid) (call : Call) :
    Option (ListHead × Int) → Tid → Option (Wait Call)
  | none => w
  | some b => update w t (some (waitOf call b))

/-- `rt_mutex_take` and `rt_event_recv` are called by threads only, and a thread that is in a call
makes no other one. The other calls may come from an interrupt when they do not wait. -/
def proper (s : Sys) : Event → Bool
  | .mutexTake _ t _ => (s.wait t).isNone
  | .eventRecv _ t _ _ _ => (s.wait t).isNone
  | _ => true

/-- The threads that an event gives another priority: by `RT_THREAD_CTRL_CHANGE_PRIORITY`, as the owner
of a mutex that a more urgent thread begins to wait for, and with the last release of a mutex. -/
def Reprioritises (s : Sys) : Event → Tid → Prop
  | .changePriority t arg, u => u = t ∧ arg ≠ (s.kernel.thread u).currentPriority
  | .mutexTake n t time, u => (s.mutex n).owner = some u ∧ time ≠ 0 ∧
      (s.kernel.thread t).currentPriority < (s.kernel.thread u).currentPriority
  | .mutexRelease n t, u => u = t ∧ (s.mutex n).owner = some u ∧ (s.mutex n).hold = 1 ∧
      (s.mutex n).originalPriority ≠ (s.kernel.thread u).currentPriority
  | _, _ => False

/-- The events that run `rt_timer_check` or a round of it. -/
def Checks : Event → Prop
  | .tick | .timerCheckRound => True
  | _ => False

/-- The threads that are in a call, but for the one that goes on, take no part in the section of `t`:
none of them is suspended by it or in `own`, and their waits stay. -/
abbrev Apart (s : Sys) (e : Event) (w : Tid → Option (Wait Call)) (t : Tid) (time : Int)
    (own : Tid → Prop) : Prop :=
  ∀ u, s.wait u ≠ none → e ≠ .resume u → (u = t → time = 0) ∧ ¬ own u ∧ w u = s.wait u

/-- What a step does to the threads: it edits, wakes and re-prioritises them, and in the end it may
suspend one in a list of an object; or it puts one to sleep; or thread timers expire. The
waits `w` are those before the step, without the one of a thread that goes on. -/
inductive Threads (s s' : Sys) (e : Event) : Prop
  | section {t : Tid} {time : Int} {flag : IpcFlag} {b : Option (ListHead × Int)} {call : Call}
      {own : Tid → Prop} (w : Tid → Option (Wait Call)) (hw : WaitTimer.Inv s.kernel w)
      (hready : time = 0 ∨ (s.kernel.thread t).stat = .ready)
      (hk : Section own (Reprioritises s e) s.kernel s'.kernel t time flag b)
      (hlist : ∀ hd time', b = some (hd, time') → ListOf s.parents hd flag)
      (hwait : s'.wait = waitAfter w t call b)
      (hapart : proper s e = true → Apart s e w t time own)
  | sleep {t : Tid} {tick : Nat} (hready : (s.kernel.thread t).stat = .ready) (hnone : s.wait t = none)
      (hk : s.kernel.rtThreadSleep t tick = some s'.kernel)
      (hwait : s'.wait = update s.wait t (some ⟨.sleep, none, true⟩))
  | tick (he : Checks e) (hk : rtTickIncrease s.kernel = some s'.kernel) (hwait : s'.wait = s.wait)
  | expire {t : Tid} (he : Checks e) (hlinked : t ∈ s.kernel.threadTimer.timerList)
      (hk : s.kernel.expire t = some s'.kernel) (hwait : s'.wait = s.wait)

structure Effect (s s' : Sys) (e : Event) : Prop where
  threads : Threads s s' e
  mutex : ∀ n, MutexOk (s'.mutex n)
  parents : s'.parents = s.parents

variable {e : Event}

/-- A section without suspension. -/
theorem Effect.quiet (hw : WaitTimer.Inv s.kernel s'.wait)
    (hk : Calm (fun _ => False) (Reprioritises s e) s.kernel s'.kernel) (hmutex : ∀ n, MutexOk (s'.mutex n))
    (hparents : s'.parents = s.parents) (hwait : ∀ u, e ≠ .resume u → s'.wait u = s.wait u) :
    Effect s s' e := by
  have hsection : Section (fun _ => False) (Reprioritises s e) s.kernel s'.kernel 0 0 .fifo none :=
    .calm hk
  have hsame : s'.wait = waitAfter s'.wait 0 .sleep none := rfl
  exact ⟨.section s'.wait hw (.inl rfl) hsection nofun hsame
    fun _ u _ hne => ⟨fun _ => rfl, not_false, hwait u hne⟩, hmutex, hparents⟩

/-- A section of a call, in which the objects become those of `s1`. -/
theorem Effect.after (s1 : Sys) (call : Call) {b : Option (ListHead × Int)}
    (hw : WaitTimer.Inv s.kernel s1.wait) (hready : time = 0 ∨ (s.kernel.thread t).stat = .ready)
    (hk : Section own (Reprioritises s e) s.kernel k' t time flag b)
    (hlist : ∀ hd time', b = some (hd, time') → ListOf s.parents hd flag)
    (hmutex : ∀ n, MutexOk (s1.mutex n)) (hparents : s1.parents = s.parents)
    (hapart : proper s e = true → Apart s e s1.wait t time own) :
    Effect s (s1.after t k' call b) e := by
  have hwait : (s1.after t k' call b).wait = waitAfter s1.wait t call b := by
    cases b <;> rfl
  cases b with
  | none => exact ⟨.section s1.wait hw hready hk hlist hwait hapart, hmutex, hparents⟩
  | some b => exact ⟨.section s1.wait hw hready hk hlist hwait hapart, hmutex, hparents⟩

/-- A thread that is in a call makes no other one that waits. -/
theorem Sys.MayCall.apart (h : s.MayCall t time) : Apart s e s.wait t time fun _ => False :=
  fun _ hwait _ => ⟨fun heq => h.resolve_right fun hnone => hwait (heq ▸ hnone.2), not_false, rfl⟩

theorem apart_of_isNone (h : (s.wait t).isNone = true) : Apart s e s.wait t time (Eq t) := by
  have hne : ∀ u, s.wait u ≠ none → u ≠ t := fun u hwait heq =>
    hwait (heq ▸ Option.isNone_iff_eq_none.mp h)
  exact fun u hwait _ => ⟨fun heq => absurd heq (hne u hwait), (hne u hwait).symm, rfl⟩

theorem Sys.MayCall.ready (h : s.MayCall t time) : time = 0 ∨ (s.kernel.thread t).stat = .ready :=
  h.imp_right And.left

/-- The list of a call that either returns or is suspended. -/
theorem listOf_of_ite {β : Type} {r : Option β} {hd hd' : ListHead} {flag : IpcFlag} {time' : Int}
    [Decidable (r = none)] (h : ListOf s.parents hd flag)
    (heq : (if r = none then some (hd, time) else none) = some (hd', time')) : ListOf s.parents hd' flag := by
  obtain ⟨-, ⟨⟩⟩ := ite_none_right_eq_some.mp heq
  exact h

section Loops

variable {β : Type} {hd : ListHead} {loopCall : Int → Nat → Call} {s1 : Sys} {r : Outcome β}

/-- The end of a critical section of a call with a loop, in which the objects become those of `s`. -/
def Sys.afterLoop (s : Sys) (t : Tid) (k : Kernel) (hd : ListHead) (loopCall : Int → Nat → Call) : Outcome β → Sys
  | .returned _ => s.setKernel k
  | .blocked timeout tickDelta => s.after t k (loopCall timeout tickDelta) (some (hd, timeout))

theorem afterMbSend_eq {value : BitVec 32} {r : Outcome Err} : s.afterMbSend n t value (k, mb, r) =
    (s.setMb n mb).afterLoop t k (s.mb n).suspendSenderThread (.mbSend n value) r := by
  cases r <;> rfl

theorem afterMbRecv_eq {r : Outcome Mailbox.Received} : s.afterMbRecv n t (k, mb, r) =
    (s.setMb n mb).afterLoop t k (s.mb n).parent.suspendThread (.mbRecv n) r := by
  cases r <;> rfl

theorem afterMqRecv_eq {mq : MessageQueue} {r : Outcome (Except Err Nat)} : s.afterMqRecv n t (k, mq, r) =
    (s.setMq n mq).afterLoop t k (s.mq n).parent.suspendThread (.mqRecv n) r := by
  cases r <;> rfl

theorem Effect.afterLoop (hlist : ListOf s.parents hd flag)
    (hw : WaitTimer.Inv s.kernel s1.wait) (hready : time = 0 ∨ (s.kernel.thread t).stat = .ready)
    (hk : Section own (Reprioritises s e) s.kernel k' t time flag (blockedIn hd r)) (hmutex : ∀ n, MutexOk (s1.mutex n))
    (hparents : s1.parents = s.parents) (hapart : proper s e = true → Apart s e s1.wait t time own) :
    Effect s (s1.afterLoop t k' hd loopCall r) e := by
  cases r with
  | returned ret => exact .after _ .sleep hw hready hk nofun hmutex hparents hapart
  | blocked timeout tickDelta =>
    refine .after _ _ hw hready hk (fun _ _ heq => ?_) hmutex hparents hapart
    cases heq
    exact hlist

end Loops

theorem calm_rtThreadSleepReturn (k : Kernel) (t : Tid) : Calm own moved k (k.rtThreadSleepReturn t) := by
  unfold Kernel.rtThreadSleepReturn
  split
  · exact .eok k t
  · exact .refl

/-- A call that goes on may suspend its thread once more. -/
theorem Effect.goOn {call : Call} (h : Inv s) (hready : (s.kernel.thread t).stat = .ready)
    (hs : (s.leave t).goOn t call = some s') : Effect s s' (.resume t) := by
  have hw : WaitTimer.Inv s.kernel (update s.wait t none) := h.wait.leave hready
  have hne : ∀ u, Event.resume t ≠ .resume u → u ≠ t := by
    rintro u h rfl
    exact h rfl
  have hleft : ∀ u, Event.resume t ≠ .resume u → update s.wait t none u = s.wait u :=
    fun u hu => update_of_ne (hne u hu) _ _
  have hapart {time : Int} : Apart s (.resume t) (update s.wait t none) t time (Eq t) :=
    fun u _ hu => ⟨fun heq => absurd heq (hne u hu), (hne u hu).symm, hleft u hu⟩
  have hquiet {k : Kernel} (hk : Calm (fun _ => False) (Reprioritises s (.resume t)) s.kernel k) :
      Effect s ((s.leave t).setKernel k) (.resume t) := .quiet hw hk h.mutex rfl hleft
  cases call with
  | semTake n | mutexTake n | eventRecv n =>
    obtain rfl := Option.some.inj hs
    exact hquiet .refl
  | mbSend n value timeout tickDelta =>
    obtain ⟨⟨k, mb, r⟩, hr, rfl⟩ := map_eq_some_iff.mp hs
    obtain ⟨time, hsection⟩ := section_rtMbSendResume hr
    rw [afterMbSend_eq]
    exact .afterLoop (.mbSender n) hw (.inr hready) hsection.1 h.mutex (parents_setMb hsection.2) fun _ => hapart
  | mbRecv n timeout tickDelta =>
    obtain ⟨⟨k, mb, r⟩, hr, rfl⟩ := map_eq_some_iff.mp hs
    obtain ⟨time, hsection⟩ := section_rtMbRecvResume rfl hr
    rw [afterMbRecv_eq]
    exact .afterLoop (.mb n) hw (.inr hready) hsection.1 h.mutex (parents_setMb hsection.2) fun _ => hapart
  | mqRecv n timeout tickDelta =>
    obtain ⟨⟨k, mq, r⟩, hr, rfl⟩ := map_eq_some_iff.mp hs
    obtain ⟨time, hsection⟩ := section_rtMqRecvResume rfl hr
    rw [afterMqRecv_eq]
    exact .afterLoop (.mq n) hw (.inr hready) hsection.1 h.mutex (parents_setMq hsection.2) fun _ => hapart
  | sleep =>
    obtain rfl := Option.some.inj hs
    exact hquiet (calm_rtThreadSleepReturn s.kernel t)

theorem Inv.setMutex (h : Inv s) (hm : MutexOk mutex) (m : Nat) :
    MutexOk ((s.setMutex n mutex).mutex m) := by
  rcases eq_or_ne m n with rfl | hne
  · simpa [Sys.setMutex] using hm
  · simpa [Sys.setMutex, hne] using h.mutex m

/-- Every step has such an effect. -/
theorem Inv.step_effect (h : Inv s) (hs : step s e = some s') : Effect s s' e := by
  cases e with
  | semTake n t time =>
    obtain ⟨hcall, hs⟩ := rtAssert_bind_eq_some.mp hs
    obtain ⟨⟨k, sem, r⟩, hr, ⟨⟩⟩ := bind_eq_some_iff.mp hs
    obtain ⟨hk, hparent⟩ := section_rtSemTake hr
    exact .after (s.setSem n sem) _ h.wait hcall.ready hk (fun _ _ => listOf_of_ite (.sem n))
      h.mutex (parents_setSem hparent) fun _ => hcall.apart
  | semRelease n =>
    obtain ⟨⟨k, sem⟩, hr, ⟨⟩⟩ := bind_eq_some_iff.mp hs
    obtain ⟨hk, hparent⟩ := calm_rtSemRelease hr
    exact .quiet h.wait hk h.mutex (parents_setSem hparent) fun _ _ => rfl
  | semReset n value =>
    obtain ⟨⟨k, sem⟩, hr, ⟨⟩⟩ := bind_eq_some_iff.mp hs
    obtain ⟨hk, hparent⟩ := calm_rtSemReset hr
    exact .quiet h.wait hk h.mutex (parents_setSem hparent) fun _ _ => rfl
  | mutexTake n t time =>
    obtain ⟨hcall, hs⟩ := rtAssert_bind_eq_some.mp hs
    obtain ⟨⟨k, mutex, r⟩, hr, ⟨⟩⟩ := bind_eq_some_iff.mp hs
    obtain ⟨hk, hparent, hm⟩ := section_rtMutexTake h.wait.wf rfl (h.mutex n)
      (fun u howner htime hlt =>
        (⟨howner, htime, hlt⟩ : Reprioritises s (.mutexTake n t time) u)) hr
    exact .after (s.setMutex n mutex) _ h.wait hcall.ready hk
      (fun _ _ => listOf_of_ite (.mutex n)) (h.setMutex hm) (parents_setMutex hparent)
      apart_of_isNone
  | mutexRelease n t =>
    obtain ⟨⟨k, mutex, r⟩, hr, ⟨⟩⟩ := bind_eq_some_iff.mp hs
    obtain ⟨hk, hparent, hm⟩ : Calm (fun _ => False) (Reprioritises s (.mutexRelease n t)) s.kernel k ∧ _ :=
      calm_rtMutexRelease h.wait.wf (h.mutex n) (fun howner hhold hne => ⟨rfl, howner, hhold, hne⟩) hr
    exact .quiet h.wait hk (h.setMutex hm) (parents_setMutex hparent) fun _ _ => rfl
  | eventSend n set =>
    obtain rfl := Option.some.inj hs
    obtain ⟨hk, hparent⟩ := calm_rtEventSend s.kernel (s.event n) set
    exact .quiet h.wait hk h.mutex (parents_setEvent hparent) fun _ _ => rfl
  | eventRecv n t set option timeout =>
    obtain ⟨hcall, hs⟩ := rtAssert_bind_eq_some.mp hs
    obtain ⟨⟨k, event, r⟩, hr, ⟨⟩⟩ := bind_eq_some_iff.mp hs
    obtain ⟨hk, hparent⟩ := section_rtEventRecv rfl hr
    exact .after (s.setEvent n event) _ h.wait hcall.ready hk (fun _ _ => listOf_of_ite (.event n))
      h.mutex (parents_setEvent hparent) apart_of_isNone
  | eventReset n =>
    obtain ⟨⟨k, event⟩, hr, ⟨⟩⟩ := bind_eq_some_iff.mp hs
    obtain ⟨hk, hparent⟩ := calm_rtEventReset hr
    exact .quiet h.wait hk h.mutex (parents_setEvent hparent) fun _ _ => rfl
  | mbSend n t value timeout =>
    obtain ⟨hcall, hs⟩ := rtAssert_bind_eq_some.mp hs
    obtain ⟨⟨k, mb, r⟩, hr, rfl⟩ := map_eq_some_iff.mp hs
    obtain ⟨hk, hparent⟩ := section_rtMbSendWait hr
    rw [afterMbSend_eq]
    exact .afterLoop (.mbSender n) h.wait hcall.ready hk h.mutex (parents_setMb hparent) fun _ => hcall.apart
  | mbRecv n t timeout =>
    obtain ⟨hcall, hs⟩ := rtAssert_bind_eq_some.mp hs
    obtain ⟨⟨k, mb, r⟩, hr, rfl⟩ := map_eq_some_iff.mp hs
    obtain ⟨hk, hparent⟩ := section_rtMbRecv hr
    rw [afterMbRecv_eq]
    exact .afterLoop (.mb n) h.wait hcall.ready hk h.mutex (parents_setMb hparent) fun _ => hcall.apart
  | mbReset n =>
    obtain ⟨⟨k, mb⟩, hr, ⟨⟩⟩ := bind_eq_some_iff.mp hs
    obtain ⟨hk, hparent⟩ := calm_rtMbReset hr
    exact .quiet h.wait hk h.mutex (parents_setMb hparent) fun _ _ => rfl
  | mqFetch n size =>
    obtain ⟨⟨mq, r⟩, hr, ⟨⟩⟩ := bind_eq_some_iff.mp hs
    exact .quiet h.wait .refl h.mutex (parents_setMq (fetchFree_parent hr)) fun _ _ => rfl
  | mqLink n urgent msg =>
    obtain ⟨⟨k, mq⟩, hr, rfl⟩ := map_eq_some_iff.mp hs
    obtain ⟨hk, hparent⟩ : Calm (fun _ => False) (fun _ => False) s.kernel k ∧ mq.parent = (s.mq n).parent := by
      split at hr
      all_goals
        obtain ⟨k1, hres, ⟨⟩⟩ := map_eq_some_iff.mp hr
        exact ⟨calm_resumeReceiver hres, rfl⟩
    exact .quiet h.wait hk h.mutex (parents_setMq hparent) fun _ _ => rfl
  | mqRecv n t size timeout =>
    obtain ⟨hcall, hs⟩ := rtAssert_bind_eq_some.mp hs
    obtain ⟨⟨k, mq, r⟩, hr, rfl⟩ := map_eq_some_iff.mp hs
    obtain ⟨hk, hparent⟩ := section_rtMqRecv hr
    rw [afterMqRecv_eq]
    exact .afterLoop (.mq n) h.wait hcall.ready hk h.mutex (parents_setMq hparent) fun _ => hcall.apart
  | mqRecvIsr n size =>
    obtain ⟨⟨k, mq, r⟩, hr, ⟨⟩⟩ := bind_eq_some_iff.mp hs
    obtain ⟨rfl, hparent⟩ := rtMqRecv_isr hr
    exact .quiet h.wait .refl h.mutex (parents_setMq hparent) fun _ _ => rfl
  | mqFree n msg =>
    obtain rfl := Option.some.inj hs
    exact .quiet h.wait .refl h.mutex (parents_setMq rfl) fun _ _ => rfl
  | mqReset n =>
    obtain ⟨⟨k, mq⟩, hr, ⟨⟩⟩ := bind_eq_some_iff.mp hs
    obtain ⟨hk, hparent⟩ := calm_rtMqReset hr
    exact .quiet h.wait hk h.mutex (parents_setMq hparent) fun _ _ => rfl
  | resumeAllRound hd =>
    simp only [IpcRun.step] at hs
    split at hs
    · cases hs
    next t rest _ =>
      obtain rfl := Option.some.inj hs
      exact .quiet h.wait (calm_resumeAllRound s.kernel t) h.mutex rfl fun _ _ => rfl
  | sleep t tick =>
    obtain ⟨⟨hready, hnone⟩, hs⟩ := rtAssert_bind_eq_some.mp hs
    obtain ⟨k, hk, ⟨⟩⟩ := bind_eq_some_iff.mp hs
    exact ⟨.sleep hready hnone hk rfl, h.mutex, rfl⟩
  | resume t =>
    obtain ⟨hready, hs⟩ := rtAssert_bind_eq_some.mp hs
    obtain ⟨w, -, hs⟩ := bind_eq_some_iff.mp hs
    exact .goOn h hready hs
  | changePriority t arg =>
    obtain rfl := Option.some.inj hs
    exact .quiet h.wait (.single (.changePriority s.kernel t arg arg.isLt fun hne => ⟨rfl, hne⟩)) h.mutex rfl fun _ _ => rfl
  | yield t =>
    obtain rfl := Option.some.inj hs
    exact .quiet h.wait (.single (.yield s.kernel t)) h.mutex rfl fun _ _ => rfl
  | tick =>
    obtain ⟨k, hk, ⟨⟩⟩ := bind_eq_some_iff.mp hs
    exact ⟨.tick trivial hk rfl, h.mutex, rfl⟩
  | timerCheckRound =>
    simp only [IpcRun.step] at hs
    split at hs
    · cases hs
    next t rest hlist =>
      obtain ⟨-, hs⟩ := rtAssert_bind_eq_some.mp hs
      obtain ⟨k, hk, ⟨⟩⟩ := bind_eq_some_iff.mp hs
      exact ⟨.expire trivial (by simp [hlist]) hk rfl, h.mutex, rfl⟩

/-! ## Runs -/

theorem Inv.step (h : Inv s) (hs : step s e = some s') : Inv s' := by
  obtain ⟨hthreads, hmutex, -⟩ := h.step_effect hs
  refine ⟨?_, hmutex⟩
  cases hthreads with
  | @«section» t time flag b call own w hw hready hk hlist hwait =>
    have hinv := hw.section call hready hk
    rw [hwait]
    cases b <;> exact hinv
  | sleep hready hnone hk hwait =>
    rw [hwait]
    exact h.wait.sleep .sleep hready hk
  | tick he hk hwait =>
    obtain ⟨k', hk', hinv, -⟩ := h.wait.rtTickIncrease
    obtain rfl : k' = s'.kernel := Option.some.inj (hk'.symm.trans hk)
    rwa [hwait]
  | expire he hlinked hk hwait =>
    rw [hwait]
    exact h.wait.expired hlinked hk

/-- In every run: a linked thread timer belongs to a thread that is suspended by its current
call, which started the timer and linked the thread into its own list; the assertion of
`rt_thread_timeout` holds for every linked timer; a tick never changes a thread whose wait
is over; and a thread is linked in at most one list, at most once. -/
theorem thread_timer_suspended {s0 : Sys} {es : List Event} (hinit : Initial s0)
    (hrun : run step s0 es = some s) :
    (∀ t ∈ s.kernel.threadTimer.timerList, (s.kernel.thread t).stat = .suspend ∧
      (∃ w, s.wait t = some w ∧ w.timer = true ∧
        ∀ hd, hd.IsWait → (t ∈ s.kernel.tlist hd ↔ w.list = some hd)) ∧
      ∃ k, s.kernel.expire t = some k) ∧
    (∃ k, rtTickIncrease s.kernel = some k ∧
      ∀ t, (s.kernel.thread t).stat ≠ .suspend → k.thread t = s.kernel.thread t) ∧
    (∀ t hd hd', t ∈ s.kernel.tlist hd → t ∈ s.kernel.tlist hd' → hd = hd') ∧
    ∀ hd, (s.kernel.tlist hd).Nodup := by
  have hinv := (run_invariant (fun _ _ _ h hs => h.step hs) hinit.inv hrun).wait
  refine ⟨fun t ht => ?_, ?_, fun t hd hd' => hinv.wf.exclusive.unique, hinv.wf.exclusive.nodup⟩
  · obtain ⟨hstat, w, hw, htimer⟩ := hinv.linked t ht
    obtain ⟨w', hw', hlist⟩ := hinv.suspended t hstat
    obtain rfl : w = w' := Option.some.inj (hw.symm.trans hw')
    obtain ⟨k, hexpire, -⟩ := hinv.expire ht
    exact ⟨hstat, ⟨w, hw, htimer, hlist⟩, k, hexpire⟩
  · obtain ⟨k, hk, -, hsame⟩ := hinv.rtTickIncrease
    exact ⟨k, hk, hsame⟩

/-- The ready queue, its bitmap and the wait lists agree with the states of the threads in every run. -/
theorem threads_queued {s0 : Sys} {es : List Event} (hinit : Initial s0)
    (hrun : run step s0 es = some s) :
    (∀ t, (s.kernel.thread t).stat = .ready →
      t ∈ s.kernel.tlist (.priorityTable (s.kernel.thread t).currentPriority)) ∧
    (∀ t, (s.kernel.thread t).stat = .suspend → ∃ w, s.wait t = some w ∧
      ∀ hd, hd.IsWait → (t ∈ s.kernel.tlist hd ↔ w.list = some hd)) ∧
    ∀ p < 32, s.kernel.rtThreadReadyPriorityGroup.getLsbD p = true ↔
      s.kernel.tlist (.priorityTable p) ≠ [] := by
  have hinv := (run_invariant (fun _ _ _ h hs => h.step hs) hinit.inv hrun).wait
  exact ⟨fun t => hinv.wf.ready nofun, hinv.suspended, hinv.wf.group⟩

/-! ## A semaphore with a timeout -/

/-- Two ready threads, and objects that nobody has used. -/
def unused : Sys where
  kernel := Kernel.bootThreads (fun _ => 10) [0, 1]
  sem := fun n => Sem.rtSemInit (5 * n) 0 .fifo
  mutex := fun n => Mutex.rtMutexInit (5 * n + 1) .fifo
  event := fun n => RtEvent.rtEventInit (5 * n + 2) .fifo
  mb := fun n => Mailbox.rtMbInit (5 * n + 3) (fun _ => 0) 4 .fifo
  mq := fun n => MessageQueue.rtMqInit (5 * n + 4) (fun _ => none) (fun _ _ => 0) 4 64 .fifo
  wait := fun _ => none

theorem unused_initial : Initial unused where
  wf := Kernel.bootThreads_wf _ _
  stat
    | 0 | 1 => by decide
    | _ + 2 => nofun
  timerList := rfl
  activated _ := rfl
  oneShot _ := rfl
  mutex _ := ⟨rfl, rfl⟩

/-- Both threads wait for the semaphore for two ticks. A release wakes thread 0 up before the
last tick. -/
def releasedInTime : List Event :=
  [.semTake 0 0 2, .semTake 0 1 2, .tick, .semRelease 0]

def released : Sys := endState step unused releasedInTime

theorem released_eq : run step unused releasedInTime = some released :=
  run_endState (by decide)

/-- The tick at which both waiting times are over leaves thread 0 alone. -/
theorem thread_timer_suspended_released :
    1 ∈ released.kernel.threadTimer.timerList ∧ (released.kernel.thread 1).stat = .suspend ∧
      (released.kernel.thread 0).stat = .ready ∧
      ∃ k, rtTickIncrease released.kernel = some k ∧ k.thread 0 = released.kernel.thread 0 := by
  have hmem : 1 ∈ released.kernel.threadTimer.timerList := by decide
  have hready : (released.kernel.thread 0).stat = .ready := by decide
  obtain ⟨hlinked, ⟨k, hk, hsame⟩, -⟩ :=
    thread_timer_suspended unused_initial released_eq
  exact ⟨hmem, (hlinked 1 hmem).1, hready, k, hk, hsame 0 (by simp [hready])⟩

theorem threads_queued_released :
    0 ∈ released.kernel.tlist (.priorityTable (released.kernel.thread 0).currentPriority) :=
  (threads_queued unused_initial released_eq).1 0 (by decide)

end IpcRun

end RtThread
