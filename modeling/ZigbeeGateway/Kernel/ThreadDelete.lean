-- SUMMARY: Creating and removing threads.
import ZigbeeGateway.Kernel.Scheduler

/-!
# Creating and removing threads

The model of `_rt_thread_init`, `rt_thread_detach` and `rt_thread_delete` of `thread.c` and
of the removal of defunct threads in `idle.c`, on top of the calls of `Scheduler` and of
waits on any IPC object.

`_rt_thread_init` does not set `number_mask`: up to `rt_thread_startup` the field holds what
was in the memory of the object. A removal clears this mask in the ready group when the
ready list of the thread's priority is empty. `RemoveOk` is what this asks of the mask of a
thread that was never started.
-/

namespace RtThread

open Run Function

namespace Kernel

/-- `_rt_thread_init`, called by `rt_thread_init` for a static object and by
`rt_thread_create` for an allocated one. The memory of the object is not cleared before. -/
def rtThreadInit (k : Kernel) (t : Tid) (isSystemObject : Bool) (priority : Nat) :
    Option Kernel := do
  rtAssert (priority < 32)
  let k := k.setThread t
    { k.thread t with
      isSystemObject := isSystemObject
      cleanup := false
      error := .eok
      stat := .init
      currentPriority := priority
      initPriority := priority }
  return { k with threadTimer := k.threadTimer.setTimer t ⟨false, false, 0, 0⟩ }

/-- The first half of `rt_thread_delete` and `rt_thread_detach`. -/
def closeThread (k : Kernel) (t : Tid) : Kernel :=
  let k := k.rtScheduleRemoveThread t
  let k := { k with threadTimer := k.threadTimer.rtTimerDetach t }
  k.setThread t { k.thread t with stat := .close }

/-- `rt_thread_delete`. -/
def rtThreadDelete (k : Kernel) (t : Tid) : Kernel :=
  (k.closeThread t).rtListInsertAfter .defunct t

/-- `rt_thread_detach`. -/
def rtThreadDetach (k : Kernel) (t : Tid) : Kernel :=
  let k := k.closeThread t
  if (k.thread t).cleanup then k.rtListInsertAfter .defunct t else k

/-- One round of the loop of `rt_thread_idle_excute`: the memory of the thread may be used
again after it. -/
def idleRound (k : Kernel) : Kernel :=
  match k.tlist .defunct with
  | [] => k
  | t :: _ => k.rtListRemove t

end Kernel

namespace ThreadDelete

/-! ## The system -/

instance : DecidablePred ListHead.IsWait
  | .priorityTable _ => inferInstanceAs (Decidable False)
  | .defunct => inferInstanceAs (Decidable False)
  | .suspendThread _ => inferInstanceAs (Decidable True)
  | .suspendSenderThread _ => inferInstanceAs (Decidable True)

/-- The calls of `Scheduler`, the critical sections of IPC calls that suspend the running
thread or wake waiting ones, and the calls that create and remove threads. -/
inductive Event where
  | call (e : Scheduler.Event)
  | ipcSuspend (hd : ListHead) (flag : IpcFlag) (time : Int)
  | ipcResume (hd : ListHead)
  | ipcResumeAll (hd : ListHead)
  | init (t : Tid) (isSystemObject : Bool) (priority : Nat)
  | setCleanup (t : Tid) (cleanup : Bool)
  | delete (t : Tid)
  | detach (t : Tid)
  | idle
  deriving DecidableEq

/-- The state that a call reaches before it calls `rt_schedule`, and whether it does. Memory
that is in use by a thread is not initialised again, and a thread is removed once, by
another thread. -/
def effect (k : Kernel) : Event → Option (Kernel × Bool)
  | .call e => Scheduler.effect k e
  | .ipcSuspend hd flag time => do
    let t ← k.rtCurrentThread
    rtAssert (hd.IsWait ∧ (k.thread t).stat = .ready)
    let k := k.setThread t { k.thread t with error := .eok }
    let k ← (k.rtIpcListSuspend hd t flag).startThreadTimer t time
    return (k, true)
  | .ipcResume hd => do
    rtAssert hd.IsWait
    let k ← k.rtIpcListResume hd
    return (k, true)
  | .ipcResumeAll hd => do
    rtAssert hd.IsWait
    let k ← k.rtIpcListResumeAll hd
    return (k, true)
  | .init t isSystemObject priority => do
    rtAssert (k.rtCurrentThread ≠ some t ∧
      ((k.thread t).stat = .init ∨ (k.thread t).stat = .close ∧ t ∉ k.tlist .defunct))
    let k ← k.rtThreadInit t isSystemObject priority
    return (k, false)
  | .setCleanup t cleanup => some (k.setThread t { k.thread t with cleanup := cleanup }, false)
  | .delete t => do
    rtAssert (k.rtCurrentThread ≠ some t ∧ (k.thread t).stat ≠ .close)
    return (k.rtThreadDelete t, false)
  | .detach t => do
    rtAssert (k.rtCurrentThread ≠ some t ∧ (k.thread t).stat ≠ .close)
    return (k.rtThreadDetach t, false)
  | .idle => some (k.idleRound, false)

def step (k : Kernel) (e : Event) : Option Kernel := do
  let (k, reschedule) ← effect k e
  if reschedule then k.rtSchedule else some k

/-- A thread that was never started may be removed: there is a ready thread of its priority,
or its mask has no bit of a priority with a ready thread. -/
def Removable (k : Kernel) (t : Tid) : Prop :=
  (k.thread t).stat = .init →
    k.tlist (.priorityTable (k.thread t).currentPriority) ≠ [] ∨
      ∀ p < 32, (k.thread t).numberMask.getLsbD p = true → k.tlist (.priorityTable p) = []

def RemoveOk (k : Kernel) : Event → Prop
  | .delete t => Removable k t
  | .detach t => Removable k t
  | _ => True

/-! ## Removing a thread -/

variable {k k' : Kernel} {t : Tid}

/-- A thread that was never started is in no list, and its mask clears no bit that is in use. -/
theorem removed_of_init (h : k.WF) (hstat : (k.thread t).stat = .init) (hok : Removable k t) :
    (k.rtScheduleRemoveThread t).WFOut (some t) := by
  have hsame : ∀ p, Lanes.remove k.tlist t (.priorityTable p) = k.tlist (.priorityTable p) :=
    fun p => h.remove_table_of_ne (.inl (by simp [hstat]))
  refine Kernel.WFOut.of_remove h (k.rtScheduleRemoveThread_thread t)
    (k.rtScheduleRemoveThread_tlist t) fun p hp => ?_
  rw [Kernel.rtScheduleRemoveThread, Kernel.rtListRemove_tlist, Kernel.rtListRemove_thread, hsame,
    hsame, ← h.group p hp]
  split
  next hempty =>
    have hclear := (hok hstat).resolve_left (not_not.mpr hempty) p hp
    have hbit : (k.thread t).numberMask.getLsbD p = true →
        k.rtThreadReadyPriorityGroup.getLsbD p = false := by
      intro hmask
      rw [Bool.eq_false_iff, ne_eq, h.group p hp, not_not]
      exact hclear hmask
    simp only [Kernel.rtListRemove_group, BitVec.getLsbD_and, BitVec.getLsbD_not, hp, decide_true,
      Bool.true_and, Bool.and_eq_true, Bool.not_eq_true']
    exact ⟨And.left, fun hset => ⟨hset, by grind⟩⟩
  next => rfl

theorem removed (h : k.WF) (hstat : (k.thread t).stat ≠ .close) (hok : Removable k t) :
    (k.rtScheduleRemoveThread t).WFOut (some t) := by
  cases hs : (k.thread t).stat with
  | init => exact removed_of_init h hs hok
  | ready => exact .rtScheduleRemoveThread h (h.mask (.inl hs))
  | suspend => exact .rtScheduleRemoveThread h (h.mask (.inr hs))
  | close => exact absurd hs hstat

theorem closed (h : k.WF) (hstat : (k.thread t).stat ≠ .close) (hok : Removable k t) :
    (k.closeThread t).WF ∧ (k.rtThreadDelete t).WF := by
  have hout : Kernel.WFOut { k.rtScheduleRemoveThread t with
      threadTimer := (k.rtScheduleRemoveThread t).threadTimer.rtTimerDetach t } (some t) :=
    (removed h hstat hok).congr rfl rfl rfl
  have hthread : (k.rtScheduleRemoveThread t).thread t = k.thread t := by
    rw [Kernel.rtScheduleRemoveThread_thread]
  refine hout.close _ rfl ?_ ?_
  · rw [hthread]
    exact h.currentPriority t
  · rw [hthread]
    exact h.initPriority t

theorem wf_rtThreadDetach (h : k.WF) (hstat : (k.thread t).stat ≠ .close) (hok : Removable k t) :
    (k.rtThreadDetach t).WF := by
  unfold Kernel.rtThreadDetach
  dsimp only
  split
  · exact (closed h hstat hok).2
  · exact (closed h hstat hok).1

/-- A thread that is in no list is initialised. -/
theorem wf_rtThreadInit {b : Bool} {priority : Nat} (h : k.WF)
    (hstat : (k.thread t).stat = .init ∨ (k.thread t).stat = .close ∧ t ∉ k.tlist .defunct)
    (hk : k.rtThreadInit t b priority = some k') : k'.WF := by
  obtain ⟨hprio, ⟨⟩⟩ := rtAssert_bind_eq_some.mp hk
  have hfree : ∀ hd, t ∉ k.tlist hd := by
    rcases hstat with hinit | ⟨hclose, hdefunct⟩
    · exact h.unlinked_of_init hinit
    · intro hd hmem
      have hholds := h.linked hmem
      cases hd with
      | defunct => exact hdefunct hmem
      | priorityTable p => cases hclose.symm.trans hholds.1
      | suspendThread | suspendSenderThread => cases hclose.symm.trans hholds
  have hout := (Kernel.WFOut.of_unlinked h hfree).setThread
    { k.thread t with
      isSystemObject := b
      cleanup := false
      error := .eok
      stat := .init
      currentPriority := priority
      initPriority := priority }
  refine (hout.leave ?_ ?_).congr rfl rfl rfl
  · simp
  · rw [Kernel.setThread_same]
    exact ⟨by simp, hprio, hprio⟩

theorem wf_idleRound (h : k.WF) : k.idleRound.WF := by
  unfold Kernel.idleRound
  split
  · exact h
  next t rest hlist =>
    have hclose : (k.thread t).stat = .close := h.linked (h := .defunct) (by simp [hlist])
    have hout := Kernel.WFOut.rtListRemove (t := t) h (by simp [hclose])
    exact hout.leave (by simp [hclose]) (h.thread (by simp))

/-! ## Steps and runs -/

open Scheduler (Inv Keeps Turn Turns Initial Highest)

theorem turns_resumeAllLoop {hd : ListHead} {fuel : Nat}
    (hk : Kernel.resumeAllLoop hd fuel k = some k') : Turns k k' := by
  induction fuel generalizing k with
  | zero =>
    obtain ⟨-, ⟨⟩⟩ := Option.ite_none_right_eq_some.mp hk
    exact .refl
  | succ fuel ih =>
    rw [Kernel.resumeAllLoop] at hk
    split at hk
    · cases hk
      exact .refl
    next t rest _ =>
      have herror : Turn k (k.setError t .error) :=
        .setThread ⟨.rfl, rfl, rfl, id⟩
      exact .head herror (.head (.resume _ t) (ih hk))

/-- A ready thread is suspended on a wait list. -/
theorem turn_block {hd : ListHead} {flag : IpcFlag} {time : Int} (hw : hd.IsWait)
    (hstat : (k.thread t).stat = .ready)
    (hk : (k.rtIpcListSuspend hd t flag).startThreadTimer t time = some k') : Turn k k' := by
  obtain ⟨timers, rfl⟩ := Kernel.startThreadTimer_eq_some hk
  have hwait : hd ≠ .defunct := by
    rintro rfl
    exact hw
  have hsuspend := Kernel.rtThreadSuspend_of_ready hstat
  have htlist : (k.rtThreadSuspend t).1.tlist = Lanes.remove k.tlist t := by
    rw [hsuspend]
    exact k.rtScheduleRemoveThread_tlist t
  refine .move hd ⟨?_, Kernel.rtThreadSuspend_thread hstat, by simp [hstat], rfl, rfl, id⟩
    (by simp [hstat]) hwait (Kernel.insertWaiter_perm (k.rtThreadSuspend t).1.thread flag t _) ?_
  · change (k.rtThreadSuspend t).1.rtCurrentThread = _
    rw [hsuspend]
    exact k.rtScheduleRemoveThread_current t
  · exact congrArg (fun L => Lanes.put L hd (Kernel.insertWaiter _ flag t (L hd))) htlist

/-- The calls that neither begin nor end nor select a thread. -/
def Quiet : Event → Prop
  | .call e => e ≠ .exit ∧ e ≠ .schedulerStart
  | .ipcSuspend _ _ _ => True
  | .ipcResume _ => True
  | .ipcResumeAll _ => True
  | _ => False

theorem effect_turns {e : Event} {b : Bool} (he : Quiet e) (hk : effect k e = some (k', b)) :
    Turns k k' ∧ (k.WF → k'.WF) := by
  cases e with
  | call e => exact Scheduler.effect_turns he.1 he.2 hk
  | ipcSuspend hd flag time =>
    obtain ⟨t, -, hk⟩ := Option.bind_eq_some_iff.mp hk
    obtain ⟨⟨hw, hstat⟩, hk⟩ := rtAssert_bind_eq_some.mp hk
    obtain ⟨k1, hblock, ⟨⟩⟩ := Option.bind_eq_some_iff.mp hk
    have hstat' : ((k.setError t .eok).thread t).stat = .ready := by
      simpa using hstat
    have herror : Turn k (k.setError t .eok) :=
      .setThread ⟨.rfl, rfl, rfl, id⟩
    exact ⟨.head herror (.single (turn_block hw hstat' hblock)),
      fun h => ((h.setError t .eok).block hstat' hw hblock).wf⟩
  | ipcResume hd =>
    obtain ⟨-, hk⟩ := rtAssert_bind_eq_some.mp hk
    obtain ⟨k1, hres, ⟨⟩⟩ := Option.bind_eq_some_iff.mp hk
    unfold Kernel.rtIpcListResume at hres
    split at hres
    · cases hres
    next t rest _ =>
      cases hres
      exact ⟨.single (.resume k t), fun h => h.rtThreadResume t⟩
  | ipcResumeAll hd =>
    obtain ⟨hw, hk⟩ := rtAssert_bind_eq_some.mp hk
    obtain ⟨k1, hres, ⟨⟩⟩ := Option.bind_eq_some_iff.mp hk
    refine ⟨turns_resumeAllLoop hres, fun h => ?_⟩
    obtain ⟨k2, hres', hwf, -⟩ := h.rtIpcListResumeAll hw
    obtain rfl : k2 = k' := Option.some.inj (hres'.symm.trans hres)
    exact hwf
  | init | setCleanup | delete | detach | idle => exact he.elim

theorem keeps_rtThreadDetach (k : Kernel) (t : Tid) : Keeps k (k.rtThreadDetach t) := by
  unfold Kernel.rtThreadDetach
  dsimp only
  split <;> exact .close rfl rfl

/-- The running thread is not the one that is initialised. -/
theorem inv_rtThreadInit {b : Bool} {priority : Nat} (h : Inv k) (hcur : k.rtCurrentThread ≠ some t)
    (hstat : (k.thread t).stat = .init ∨ (k.thread t).stat = .close ∧ t ∉ k.tlist .defunct)
    (hk : k.rtThreadInit t b priority = some k') : Inv k' := by
  refine ⟨wf_rtThreadInit h.wf hstat hk, ?_⟩
  obtain ⟨-, ⟨⟩⟩ := rtAssert_bind_eq_some.mp hk
  intro u hu
  have hne : u ≠ t := by
    rintro rfl
    exact hcur hu
  have hsame := h.current u hu
  rwa [← Kernel.setThread_of_ne k _ hne] at hsame

theorem effect_inv {e : Event} {b : Bool} (h : Inv k) (hok : RemoveOk k e)
    (hk : effect k e = some (k', b)) : Inv k' := by
  cases e with
  | call e => exact Scheduler.effect_inv h hk
  | ipcSuspend | ipcResume | ipcResumeAll =>
    obtain ⟨hturns, hwf⟩ := effect_turns (by trivial) hk
    exact h.of_keeps (hwf h.wf) (.turns hturns)
  | init t isSystemObject priority =>
    obtain ⟨⟨hcur, hstat⟩, hk⟩ := rtAssert_bind_eq_some.mp hk
    obtain ⟨k1, hinit, ⟨⟩⟩ := Option.bind_eq_some_iff.mp hk
    exact inv_rtThreadInit h hcur hstat hinit
  | setCleanup t cleanup =>
    cases hk
    exact h.of_keeps (h.wf.setThread_of_same rfl rfl rfl rfl) (.of_update rfl rfl id)
  | delete t =>
    obtain ⟨⟨-, hstat⟩, ⟨⟩⟩ := rtAssert_bind_eq_some.mp hk
    exact h.of_keeps (closed h.wf hstat hok).2 (.close rfl rfl)
  | detach t =>
    obtain ⟨⟨-, hstat⟩, ⟨⟩⟩ := rtAssert_bind_eq_some.mp hk
    exact h.of_keeps (wf_rtThreadDetach h.wf hstat hok) (keeps_rtThreadDetach k t)
  | idle =>
    cases hk
    refine h.of_keeps (wf_idleRound h.wf) ?_
    unfold Kernel.idleRound
    split <;> exact .of_thread rfl rfl

theorem step_inv {e : Event} (h : Inv k) (hok : RemoveOk k e) (hk : step k e = some k') : Inv k' := by
  obtain ⟨⟨k1, b⟩, heff, hk⟩ := Option.bind_eq_some_iff.mp hk
  have h1 := effect_inv h hok heff
  cases b with
  | false =>
    cases hk
    exact h1
  | true => exact Scheduler.rtSchedule_inv h1 hk

theorem stat_of_removed {e : Event} (he : e = .delete t ∨ e = .detach t)
    (hk : step k e = some k') : (k'.thread t).stat = .close := by
  have hclosed : ((k.closeThread t).thread t).stat = .close := by simp [Kernel.closeThread]
  rcases he with rfl | rfl
  · obtain ⟨⟨k1, b⟩, heff, hk⟩ := Option.bind_eq_some_iff.mp hk
    obtain ⟨-, ⟨⟩⟩ := rtAssert_bind_eq_some.mp heff
    cases hk
    exact hclosed
  · obtain ⟨⟨k1, b⟩, heff, hk⟩ := Option.bind_eq_some_iff.mp hk
    obtain ⟨-, ⟨⟩⟩ := rtAssert_bind_eq_some.mp heff
    cases hk
    unfold Kernel.rtThreadDetach
    dsimp only
    split
    · exact hclosed
    · exact hclosed

/-- In every run in which no removal of a thread that was never started clears the bit of a
priority that is in use: after `rt_thread_delete` or `rt_thread_detach` of another thread
every ready thread is in the list of its priority and the bit of this priority is set, so
that `rt_schedule` selects the first thread of the highest ready priority, and the removed
thread is in no ready list and in no wait list. -/
theorem removal_hides_nobody {k0 : Kernel} {es : List Event} {e : Event} (hinit : Initial k0)
    (hok : Along step RemoveOk k0 (es ++ [e])) (hrun : run step k0 (es ++ [e]) = some k)
    (he : e = .delete t ∨ e = .detach t) :
    (∀ u, (k.thread u).stat = .ready →
      k.rtThreadReadyPriorityGroup.getLsbD (k.thread u).currentPriority = true ∧
        u ∈ k.tlist (.priorityTable (k.thread u).currentPriority) ∧
        ∃ p v, p < 32 ∧ k.toThread = some (p, v) ∧ Highest k p v) ∧
      ∀ hd, t ∈ k.tlist hd → hd = .defunct := by
  have hinv : Inv k := run_invariant_along (fun _ _ _ => step_inv) hinit.inv hok hrun
  constructor
  · intro u hu
    have hmem := hinv.wf.ready (by simp) hu
    refine ⟨?_, hmem, Scheduler.toThread_of_ready hinv.wf hu⟩
    exact (hinv.wf.group _ (hinv.wf.currentPriority u)).mpr (List.ne_nil_of_mem hmem)
  · intro hd hmem
    have hclose : (k.thread t).stat = .close := by
      obtain ⟨m, -, hlast⟩ := run_append.mp hrun
      obtain ⟨k', hstep, hnil⟩ := run_cons.mp hlast
      cases hnil
      exact stat_of_removed he hstep
    have hholds := hinv.wf.linked hmem
    cases hd with
    | defunct => rfl
    | priorityTable p => cases hclose.symm.trans hholds.1
    | suspendThread | suspendSenderThread => cases hclose.symm.trans hholds

/-! ## A thread that is removed before it is started -/

/-- All threads have the priority 5, and no memory holds a mask yet. -/
def onePriority : Kernel := Kernel.boot fun _ => 5

/-- Threads 0 and 1 are started. -/
def twoStarted : List Event :=
  [.init 1 true 5, .call (.startup 1), .call (.startup 0), .call .schedulerStart]

def running : Kernel := endState step onePriority twoStarted

theorem running_eq : run step onePriority twoStarted = some running :=
  run_endState (by decide)

def deleted : Kernel := endState step running [.delete 2]

/-- Thread 2 is deleted before it is started, and its mask is zero. -/
theorem removal_hides_nobody_fresh :
    (running.thread 2).stat = .init ∧ (deleted.thread 0).stat = .ready ∧
      deleted.rtThreadReadyPriorityGroup.getLsbD (deleted.thread 0).currentPriority = true ∧
      ∀ hd, 2 ∈ deleted.tlist hd → hd = .defunct := by
  have hdeleted : step running (.delete 2) = some deleted := step_endState (by decide)
  have hmask : (running.thread 2).numberMask = 0#32 := by decide
  have hremovable : Removable running 2 := fun _ => .inr (by simp [hmask])
  have hok : Along step RemoveOk onePriority (twoStarted ++ [.delete 2]) :=
    along_append (along_of_forall (by simp [twoStarted, RemoveOk])) running_eq
      (along_cons hremovable hdeleted trivial)
  have hrun : run step onePriority (twoStarted ++ [.delete 2]) = some deleted :=
    run_append.mpr ⟨running, running_eq, run_cons.mpr ⟨deleted, hdeleted, rfl⟩⟩
  have hready : (deleted.thread 0).stat = .ready := by decide
  obtain ⟨hothers, hremoved⟩ :=
    removal_hides_nobody (Scheduler.boot_initial _) hok hrun (.inl rfl)
  exact ⟨by decide, hready, (hothers 0 hready).1, hremoved⟩

/-- Thread 1 has run with priority 5. It is initialised again with priority 10 and detached
before it is started: its old mask takes the bit of thread 0, which is ready, and the
scheduler finds no thread. -/
theorem ready_thread_hidden :
    Initial onePriority ∧
      ∃ k, run step onePriority (twoStarted ++ [.call .exit, .init 1 true 10, .detach 1]) = some k ∧
        (k.thread 0).stat = .ready ∧
        k.rtThreadReadyPriorityGroup.getLsbD (k.thread 0).currentPriority = false ∧
        k.toThread = none :=
  ⟨Scheduler.boot_initial _, run_exists (by decide) fun _ _ => id⟩

end ThreadDelete

end RtThread
