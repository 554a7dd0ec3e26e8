-- SUMMARY: Wait lists: suspending, resuming and timing out a thread.
import ZigbeeGateway.Kernel.ThreadWf

/-!
# Wait lists

The helpers at the top of `src/ipc.c`. A blocking call suspends its thread on a wait
list, starts the thread's timer and calls `rt_schedule`; the thread goes on when
another call resumes it or when its timer expires. The scheduler's choice is left
open in the systems built on this file: any ready thread may run next.

`Suspends` and `Wakes` say what these transitions do to the thread objects and to all
wait lists. The IPC proofs use them and not the ready queue.
-/

namespace RtThread

open Word Function

/-- `RT_IPC_FLAG_FIFO` and `RT_IPC_FLAG_PRIO`. -/
inductive IpcFlag where
  | fifo
  | prio
  deriving DecidableEq, Repr

/-- `struct rt_ipc_object`. The number `obj` stands for the address of the object, which
holds the head of its wait list. -/
structure IpcObject where
  obj : Nat
  flag : IpcFlag
  deriving DecidableEq, Repr

/-- How a critical section of a blocking call ends: with a return value, or with the thread
suspended. A suspended call keeps its waiting time and the tick `tick_delta` it began
to wait at. -/
inductive Outcome (β : Type) where
  | returned (result : β)
  | blocked (timeout : Int) (tickDelta : Nat)

/-- The list head `suspend_thread` of an object. -/
def IpcObject.suspendThread (ipc : IpcObject) : ListHead := .suspendThread ipc.obj

/-- The waiting time that is left when a thread runs again. The difference is computed in
`rt_uint32_t` and stored in an `rt_int32_t`. -/
def remainingTime (k : Kernel) (timeout : Int) (tickDelta : Nat) : Int :=
  if 0 < timeout then
    let tickDelta := sub32 k.threadTimer.rtTick tickDelta
    let timeout := Int.bmod (timeout - tickDelta) 4294967296
    if timeout < 0 then 0 else timeout
  else
    timeout

namespace Kernel

/-- The search of `rt_ipc_list_suspend` for a waiter with a lower priority, and the
insertion before it. -/
def insertPrio (thread : Tid → Thread) (t : Tid) : List Tid → List Tid
  | [] => [t]
  | u :: rest =>
    if (thread t).currentPriority < (thread u).currentPriority then
      t :: u :: rest
    else
      u :: insertPrio thread t rest

/-- The wait list with one more thread. -/
def insertWaiter (thread : Tid → Thread) (flag : IpcFlag) (t : Tid) (l : List Tid) : List Tid :=
  match flag with
  | .fifo => l ++ [t]
  | .prio => insertPrio thread t l

/-- `rt_ipc_list_suspend`. -/
def rtIpcListSuspend (k : Kernel) (list : ListHead) (t : Tid) (flag : IpcFlag) : Kernel :=
  let (k, _) := k.rtThreadSuspend t
  { k with tlist := Lanes.put k.tlist list (insertWaiter k.thread flag t (k.tlist list)) }

/-- `rt_ipc_list_resume`. It is only called on a list that is not empty. -/
def rtIpcListResume (k : Kernel) (list : ListHead) : Option Kernel :=
  match k.tlist list with
  | [] => none
  | t :: _ => some (k.rtThreadResume t).1

/-- The thread timer of a blocking call: it is started for a positive waiting time only. -/
def startThreadTimer (k : Kernel) (t : Tid) (time : Int) : Option Kernel :=
  if 0 < time then do
    let timers := k.threadTimer.rtTimerSetTime t time.toNat
    let (timers, _) ← timers.rtTimerStart t
    return { k with threadTimer := timers }
  else
    some k

/-- The loop of `rt_ipc_list_resume_all`, for at most `fuel` threads. -/
def resumeAllLoop (list : ListHead) : Nat → Kernel → Option Kernel
  | 0, k => if k.tlist list = [] then some k else none
  | fuel + 1, k =>
    match k.tlist list with
    | [] => some k
    | t :: _ =>
      let k := k.setThread t { k.thread t with error := .error }
      resumeAllLoop list fuel (k.rtThreadResume t).1

/-- `rt_ipc_list_resume_all`. -/
def rtIpcListResumeAll (k : Kernel) (list : ListHead) : Option Kernel :=
  resumeAllLoop list (k.tlist list).length k

variable {k k' : Kernel} {t : Tid} {hd : ListHead}

theorem insertPrio_perm (thread : Tid → Thread) (t : Tid) (l : List Tid) :
    (insertPrio thread t l).Perm (t :: l) := by
  induction l with
  | nil => exact .refl _
  | cons u rest ih =>
    rw [insertPrio]
    split
    · exact .refl _
    · exact (ih.cons u).trans (.swap t u rest)

theorem insertWaiter_perm (thread : Tid → Thread) (flag : IpcFlag) (t : Tid) (l : List Tid) :
    (insertWaiter thread flag t l).Perm (t :: l) := by
  cases flag with
  | fifo => exact List.perm_append_singleton t l
  | prio => exact insertPrio_perm thread t l

theorem startThreadTimer_eq_some {time : Int} (hk : k.startThreadTimer t time = some k') :
    ∃ timers, k' = { k with threadTimer := timers } := by
  unfold startThreadTimer at hk
  split at hk
  · obtain ⟨⟨timers, err⟩, -, ⟨⟩⟩ := Option.bind_eq_some_iff.mp hk
    exact ⟨timers, rfl⟩
  · cases hk
    exact ⟨k.threadTimer, rfl⟩

/-- Waiting times below `RT_TICK_MAX/2` pass the assertion of `rt_timer_start`. -/
theorem exists_startThreadTimer (k : Kernel) (t : Tid) {time : Int}
    (hmax : time < (rtTickMax / 2 : Nat)) : ∃ k', k.startThreadTimer t time = some k' := by
  unfold startThreadTimer
  split
  · have hinit : ((k.threadTimer.rtTimerSetTime t time.toNat).timer t).initTick < rtTickMax / 2 := by
      rw [Timers.rtTimerSetTime, Timers.setTimer_same]
      dsimp only
      omega
    have hstart : ∃ r, (k.threadTimer.rtTimerSetTime t time.toNat).rtTimerStart t = some r := by
      unfold Timers.rtTimerStart
      split
      · exact ⟨_, rfl⟩
      · rw [rtAssert, if_pos hinit]
        exact ⟨_, rfl⟩
    obtain ⟨r, hr⟩ := hstart
    dsimp only
    rw [hr]
    exact ⟨_, rfl⟩
  · exact ⟨k, rfl⟩

/-! ## What the transitions do -/

/-- A ready thread is in no wait list. -/
theorem WF.notMem_wait (h : WF k) (hstat : (k.thread t).stat = .ready) (hw : hd.IsWait) :
    t ∉ k.tlist hd := by
  intro hmem
  have hholds := h.linked hmem
  cases hd with
  | priorityTable | defunct => exact hw
  | suspendThread | suspendSenderThread => cases hstat.symm.trans hholds

theorem WF.stat_of_mem_wait (h : WF k) (hw : hd.IsWait) (hmem : t ∈ k.tlist hd) :
    (k.thread t).stat = .suspend := by
  have hholds := h.linked hmem
  cases hd with
  | priorityTable | defunct => exact hw.elim
  | suspendThread | suspendSenderThread => exact hholds

/-- Thread `t` is suspended on the wait list `hd`, which becomes `l`. -/
structure Parks (k k' : Kernel) (t : Tid) (hd : ListHead) (l : List Tid) : Prop where
  thread : k'.thread = update k.thread t { k.thread t with stat := .suspend }
  list : k'.tlist hd = l
  other : ∀ hd', hd'.IsWait → hd' ≠ hd → k'.tlist hd' = k.tlist hd'
  wf : k'.WF

/-- Suspending a thread leaves every wait list alone. -/
theorem WF.rtThreadSuspend_wait (h : WF k) (hstat : (k.thread t).stat = .ready) (hw : hd.IsWait) :
    (k.rtThreadSuspend t).1.tlist hd = k.tlist hd := by
  rw [rtThreadSuspend_of_ready hstat, setThread_tlist, rtScheduleRemoveThread_tlist]
  exact Lanes.remove_of_not_mem (h.notMem_wait hstat hw)

theorem rtThreadSuspend_thread (hstat : (k.thread t).stat = .ready) :
    (k.rtThreadSuspend t).1.thread =
      update k.thread t { k.thread t with stat := .suspend } := by
  rw [rtThreadSuspend_of_ready hstat, setThread_thread, rtScheduleRemoveThread_thread]

/-- A ready thread is suspended and linked into a wait list, at any place of it. -/
theorem WF.parks (h : WF k) (hstat : (k.thread t).stat = .ready) (hw : hd.IsWait) {l : List Tid}
    (hl : l.Perm (t :: k.tlist hd)) :
    Parks k { (k.rtThreadSuspend t).1 with
      tlist := Lanes.put (k.rtThreadSuspend t).1.tlist hd l } t hd l := by
  have hthread := rtThreadSuspend_thread hstat
  have hself : (k.rtThreadSuspend t).1.thread t = { k.thread t with stat := .suspend } := by
    simp [hthread]
  constructor
  · exact hthread
  · exact Lanes.put_same ..
  · intro hd' hw' hne
    rw [← h.rtThreadSuspend_wait hstat hw']
    exact Lanes.put_of_ne _ _ hne
  · refine (h.suspended hstat).link ?_ ?_ ?_ (by simp [hself])
    · rwa [h.rtThreadSuspend_wait hstat hw]
    · rw [hself]
      cases hd with
      | priorityTable | defunct => exact hw.elim
      | suspendThread | suspendSenderThread => rfl
    · rw [hself]
      exact ⟨fun _ => h.mask (by simp [hstat]), h.currentPriority t, h.initPriority t⟩

/-- The thread is linked in front of the other waiters. -/
theorem WF.parks_first (h : WF k) (hstat : (k.thread t).stat = .ready) (hw : hd.IsWait) :
    Parks k ((k.rtThreadSuspend t).1.rtListInsertAfter hd t) t hd (t :: k.tlist hd) := by
  rw [rtListInsertAfter, h.rtThreadSuspend_wait hstat hw]
  exact h.parks hstat hw (.refl _)

/-- The thread is linked behind the other waiters. -/
theorem WF.parks_last (h : WF k) (hstat : (k.thread t).stat = .ready) (hw : hd.IsWait) :
    Parks k ((k.rtThreadSuspend t).1.rtListInsertBefore hd t) t hd (k.tlist hd ++ [t]) := by
  rw [rtListInsertBefore, h.rtThreadSuspend_wait hstat hw]
  exact h.parks hstat hw (List.perm_append_singleton t _)

/-- Thread `t` is suspended on the wait list `hd` of an IPC object. -/
structure Suspends (k k' : Kernel) (t : Tid) (hd : ListHead) (flag : IpcFlag) : Prop where
  thread : k'.thread = update k.thread t { k.thread t with stat := .suspend }
  list : k'.tlist hd = insertWaiter k'.thread flag t (k.tlist hd)
  other : ∀ hd', hd'.IsWait → hd' ≠ hd → k'.tlist hd' = k.tlist hd'
  wf : k'.WF

theorem WF.rtIpcListSuspend (h : WF k) (hstat : (k.thread t).stat = .ready) (hw : hd.IsWait)
    (flag : IpcFlag) : Suspends k (k.rtIpcListSuspend hd t flag) t hd flag := by
  have hp := h.parks hstat hw (insertWaiter_perm (k.rtThreadSuspend t).1.thread flag t (k.tlist hd))
  rw [← h.rtThreadSuspend_wait hstat hw] at hp
  refine ⟨hp.thread, ?_, hp.other, hp.wf⟩
  rw [← h.rtThreadSuspend_wait hstat hw]
  exact hp.list

/-- Thread `t` becomes ready again, with the error number `err`. -/
structure Wakes (k k' : Kernel) (t : Tid) (err : Err) : Prop where
  suspended : (k.thread t).stat = .suspend
  thread : k'.thread = update k.thread t { k.thread t with stat := .ready, error := err }
  wait : ∀ hd, hd.IsWait → k'.tlist hd = (k.tlist hd).erase t
  wf : k'.WF

/-- The insertion into a ready list leaves every wait list alone. -/
theorem rtScheduleInsertThread_wait (k : Kernel) (t : Tid) (hw : hd.IsWait) :
    (k.rtScheduleInsertThread t).tlist hd = k.tlist hd := by
  apply Lanes.put_of_ne
  rintro rfl
  exact hw

theorem WF.wakes_resume (h : WF k) (hstat : (k.thread t).stat = .suspend) :
    Wakes k (k.rtThreadResume t).1 t (k.thread t).error := by
  have hwf := h.rtThreadResume t
  rw [Kernel.rtThreadResume, if_neg (not_not.mpr hstat)] at hwf ⊢
  refine ⟨hstat, rfl, fun hd hw => ?_, hwf⟩
  rw [rtScheduleInsertThread_wait _ t hw]
  rfl

theorem WF.wakes_expire (h : WF k) (hk : k.expire t = some k') : Wakes k k' t .etimeout := by
  have hwf := h.expire hk
  obtain ⟨k1, timers, hto, -, rfl⟩ := expire_eq_some hk
  obtain ⟨hstat, ⟨⟩⟩ := rtAssert_bind_eq_some.mp hto
  refine ⟨hstat, ?_, fun hd hw => ?_, hwf⟩
  · change update (update k.thread t _) t _ = _
    rw [update_idem, rtListRemove_thread, setThread_same]
  · dsimp only
    rw [rtScheduleInsertThread_wait _ t hw]
    rfl

/-- Suspending with a thread timer: the last two actions of every blocking call. -/
theorem WF.block {time : Int} (h : WF k) (hstat : (k.thread t).stat = .ready) (hw : hd.IsWait)
    {flag : IpcFlag} (hk : (k.rtIpcListSuspend hd t flag).startThreadTimer t time = some k') :
    Suspends k k' t hd flag := by
  obtain ⟨timers, rfl⟩ := startThreadTimer_eq_some hk
  obtain ⟨hthread, hlist, hother, hwf⟩ := h.rtIpcListSuspend hstat hw flag
  exact ⟨hthread, hlist, hother, hwf.congr rfl rfl rfl⟩

theorem Parks.startThreadTimer {l : List Tid} {time : Int} {k1 : Kernel}
    (h : Parks k k1 t hd l) (hk : k1.startThreadTimer t time = some k') : Parks k k' t hd l := by
  obtain ⟨timers, rfl⟩ := startThreadTimer_eq_some hk
  exact ⟨h.thread, h.list, h.other, h.wf.congr rfl rfl rfl⟩

/-- The head of a wait list is resumed. -/
theorem WF.rtIpcListResume (h : WF k) (hw : hd.IsWait) {rest : List Tid}
    (hlist : k.tlist hd = t :: rest) :
    ∃ k', k.rtIpcListResume hd = some k' ∧ Wakes k k' t (k.thread t).error := by
  refine ⟨_, by rw [Kernel.rtIpcListResume, hlist], h.wakes_resume (h.stat_of_mem_wait hw ?_)⟩
  simp [hlist]

theorem WF.setError (h : WF k) (t : Tid) (err : Err) : WF (k.setError t err) :=
  h.setThread_of_same rfl rfl rfl rfl

/-- Nobody is resumed, or the first thread of a wait list. -/
def Resumes (k k' : Kernel) (hd : ListHead) : Prop :=
  k.tlist hd = [] ∧ k' = k ∨
    ∃ u rest, k.tlist hd = u :: rest ∧ k.Wakes k' u (k.thread u).error

theorem WF.resumes (h : WF k) (hw : hd.IsWait) {rest : List Tid} (hlist : k.tlist hd = t :: rest) :
    Resumes k (k.rtThreadResume t).1 hd := by
  have hmem : t ∈ k.tlist hd := hlist ▸ List.mem_cons_self
  exact .inr ⟨t, rest, hlist, h.wakes_resume (h.stat_of_mem_wait hw hmem)⟩

/-- Thread `t` clears its error number and is suspended behind the other waiters of `hd`: the
blocking calls of the device drivers. -/
structure Waits (k k' : Kernel) (t : Tid) (hd : ListHead) : Prop where
  thread : k'.thread = update k.thread t { k.thread t with stat := .suspend, error := .eok }
  list : k'.tlist hd = k.tlist hd ++ [t]
  other : ∀ hd', hd'.IsWait → hd' ≠ hd → k'.tlist hd' = k.tlist hd'
  wf : k'.WF

theorem WF.waits {time : Int} (h : WF k) (hstat : (k.thread t).stat = .ready) (hw : hd.IsWait)
    (hk : (((k.setError t .eok).rtThreadSuspend t).1.rtListInsertBefore
      hd t).startThreadTimer t time = some k') : Waits k k' t hd := by
  have hwf := h.setError t .eok
  have hready : ((k.setError t .eok).thread t).stat = .ready := by
    simpa using hstat
  have hp := (hwf.parks_last hready hw).startThreadTimer hk
  refine ⟨?_, hp.list, hp.other, hp.wf⟩
  rw [hp.thread, setThread_thread, update_idem, update_self]

/-- Every thread leaves the list, so the loop ends. -/
theorem WF.resumeAllLoop {l : List Tid} (h : WF k) (hw : hd.IsWait) (hlist : k.tlist hd = l) :
    ∃ k', resumeAllLoop hd l.length k = some k' ∧ k'.WF ∧ k'.tlist hd = [] := by
  induction l generalizing k with
  | nil => exact ⟨k, by simp [Kernel.resumeAllLoop, hlist], h, hlist⟩
  | cons t rest ih =>
    have hstat : ((k.setError t .error).thread t).stat = .suspend := by
      simpa using h.stat_of_mem_wait hw (hlist ▸ List.mem_cons_self)
    have hwk := (h.setError t .error).wakes_resume hstat
    have hrest : ((k.setError t .error).rtThreadResume t).1.tlist hd =
        rest := by
      rw [hwk.wait hd hw, setThread_tlist, hlist, List.erase_cons_head]
    obtain ⟨k', hk', hwf, hnil⟩ := ih hwk.wf hrest
    refine ⟨k', ?_, hwf, hnil⟩
    simpa only [List.length_cons, Kernel.resumeAllLoop, hlist] using hk'

theorem WF.rtIpcListResumeAll (h : WF k) (hw : hd.IsWait) :
    ∃ k', k.rtIpcListResumeAll hd = some k' ∧ k'.WF ∧ k'.tlist hd = [] :=
  h.resumeAllLoop hw rfl

namespace Suspends

variable {flag : IpcFlag} {u : Tid}

theorem thread_same (h : Suspends k k' t hd flag) :
    k'.thread t = { k.thread t with stat := .suspend } := by
  rw [h.thread, update_self]

theorem thread_of_ne (h : Suspends k k' t hd flag) (hu : u ≠ t) : k'.thread u = k.thread u := by
  rw [h.thread, update_of_ne hu]

theorem mem (h : Suspends k k' t hd flag) : u ∈ k'.tlist hd ↔ u = t ∨ u ∈ k.tlist hd := by
  rw [h.list, (insertWaiter_perm ..).mem_iff, List.mem_cons]

end Suspends

namespace Waits

variable {u : Tid}

theorem thread_same (h : Waits k k' t hd) :
    k'.thread t = { k.thread t with stat := .suspend, error := .eok } := by
  rw [h.thread, update_self]

end Waits

namespace Wakes

variable {err : Err} {u : Tid}

theorem thread_same (h : Wakes k k' t err) :
    k'.thread t = { k.thread t with stat := .ready, error := err } := by
  rw [h.thread, update_self]

theorem thread_of_ne (h : Wakes k k' t err) (hu : u ≠ t) : k'.thread u = k.thread u := by
  rw [h.thread, update_of_ne hu]

theorem mem (hwf : WF k) (h : Wakes k k' t err) (hw : hd.IsWait) :
    u ∈ k'.tlist hd ↔ u ≠ t ∧ u ∈ k.tlist hd := by
  rw [h.wait hd hw]
  exact (hwf.exclusive.nodup hd).mem_erase_iff

/-- The only thread that leaves the wait list is the one that is woken. -/
theorem filter_woken (hwf : WF k) (h : Wakes k k' t err) (hw : hd.IsWait) (hmem : t ∈ k.tlist hd) :
    (k.tlist hd).filter (· ∉ k'.tlist hd) = [t] := by
  have hnodup := hwf.exclusive.nodup hd
  have hfilter : (k.tlist hd).filter (· ∉ k'.tlist hd) = (k.tlist hd).filter (· == t) := by
    apply List.filter_congr
    intro u hu
    rw [Bool.eq_iff_iff]
    simp [h.mem hwf hw, hu]
  rw [hfilter, List.filter_beq, List.count_eq_one_of_mem hnodup hmem]
  rfl

end Wakes

namespace Resumes

variable {hd' : ListHead}

theorem wf (h : WF k) (hres : Resumes k k' hd) : WF k' := by
  obtain ⟨-, rfl⟩ | ⟨u, rest, -, hwk⟩ := hres
  · exact h
  · exact hwk.wf

/-- Nobody joins a wait list when a thread is resumed. -/
theorem subset (hres : Resumes k k' hd) (hw : hd'.IsWait) : k'.tlist hd' ⊆ k.tlist hd' := by
  obtain ⟨-, rfl⟩ | ⟨u, rest, -, hwk⟩ := hres
  · exact List.Subset.refl _
  · rw [hwk.wait hd' hw]
    exact List.erase_subset

/-- A ready thread stays ready. -/
theorem ready {u : Tid} (hres : Resumes k k' hd) (hu : (k.thread u).stat = .ready) :
    (k'.thread u).stat = .ready := by
  obtain ⟨-, rfl⟩ | ⟨v, rest, -, hwk⟩ := hres
  · exact hu
  · by_cases huv : u = v
    · rw [huv, hwk.thread_same]
    · rw [hwk.thread_of_ne huv, hu]

/-- The first thread leaves its list. -/
theorem tail (hres : Resumes k k' hd) (hw : hd.IsWait) : k'.tlist hd = (k.tlist hd).tail := by
  obtain ⟨hnil, rfl⟩ | ⟨u, rest, hlist, hwk⟩ := hres
  · rw [hnil, List.tail_nil]
  · rw [hwk.wait hd hw, hlist, List.erase_cons_head, List.tail_cons]

end Resumes

/-! ## Priorities -/

/-- The priorities of the threads, in the order current and initial. -/
def priorities (k : Kernel) : (Tid → Nat) × (Tid → Nat) :=
  (fun u => (k.thread u).currentPriority, fun u => (k.thread u).initPriority)

theorem priorities_of_update {th : Thread} (hthread : k'.thread = update k.thread t th)
    (hcur : th.currentPriority = (k.thread t).currentPriority)
    (hinit : th.initPriority = (k.thread t).initPriority) : k'.priorities = k.priorities := by
  have hsame : ∀ u, (k'.thread u).currentPriority = (k.thread u).currentPriority ∧
      (k'.thread u).initPriority = (k.thread u).initPriority := by
    intro u
    by_cases hut : u = t
    · subst hut
      simp [hthread, hcur, hinit]
    · simp [hthread, hut]
  simp [priorities, hsame]

theorem setError_priorities (k : Kernel) (t : Tid) (err : Err) :
    (k.setError t err).priorities = k.priorities :=
  priorities_of_update (setThread_thread ..) rfl rfl

theorem Suspends.priorities {flag : IpcFlag} (h : Suspends k k' t hd flag) :
    k'.priorities = k.priorities :=
  priorities_of_update h.thread rfl rfl

theorem Wakes.priorities {err : Err} (h : Wakes k k' t err) : k'.priorities = k.priorities :=
  priorities_of_update h.thread rfl rfl

theorem rtThreadChangePriority_thread (k : Kernel) (t : Tid) (arg : Nat) :
    (k.rtThreadChangePriority t arg).thread = update k.thread t
      { k.thread t with
        currentPriority := arg
        numberMask := 1#32 <<< arg } := by
  unfold rtThreadChangePriority
  split
  next hstat =>
    change update (update _ t _) t _ = _
    simp [← hstat]
  · rfl

/-- A thread that changes its priority keeps its place in a wait list. -/
theorem WF.rtThreadChangePriority_wait (h : WF k) (t : Tid) (arg : Nat) (hw : hd.IsWait) :
    (k.rtThreadChangePriority t arg).tlist hd = k.tlist hd := by
  unfold Kernel.rtThreadChangePriority
  split
  next hstat =>
    rw [rtScheduleInsertThread_wait _ t hw, setThread_tlist, rtScheduleRemoveThread_tlist]
    exact Lanes.remove_of_not_mem (h.notMem_wait hstat hw)
  · rfl

theorem rtThreadChangePriority_priorities (k : Kernel) (t : Tid) (arg : Nat) :
    (k.rtThreadChangePriority t arg).priorities =
      (update k.priorities.1 t arg, k.priorities.2) := by
  have hthread := rtThreadChangePriority_thread k t arg
  ext u
  · by_cases hut : u = t
    · subst hut
      simp [priorities, hthread]
    · simp [priorities, hthread, hut]
  · by_cases hut : u = t
    · subst hut
      simp [priorities, hthread]
    · simp [priorities, hthread, hut]

end Kernel

end RtThread
