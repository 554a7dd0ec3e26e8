-- SUMMARY: Thread timers and suspended threads.
import ZigbeeGateway.Kernel.Ipc
import ZigbeeGateway.Kernel.TimerRun

/-!
# Thread timers

Suspending a thread, starting its timer, waking it up and stopping its timer are done in
`thread.c`, `ipc.c` and `timer.c`. `Inv` ties them together: a linked thread timer belongs
to a suspended thread, and a suspended thread is in the list its blocking call put it in.

The critical sections of the IPC calls are described by what they do to the threads. Most of
them only edit threads, wake them up or change their priorities (`Calm`), and a section that
ends with the calling thread suspended does that last (`Section`).
-/

namespace RtThread.WaitTimer

open Word Function

/-! ## One-shot timers -/

/-- The list of linked timers agrees with the flags, and no timer is periodic. -/
structure TimersOk {ι : Type} (s : Timers ι) : Prop where
  nodup : s.timerList.Nodup
  activated : ∀ i, (s.timer i).activated = true ↔ i ∈ s.timerList
  oneShot : ∀ i, (s.timer i).periodic = false

namespace TimersOk

variable {ι : Type} [DecidableEq ι] {s s' : Timers ι} {i : ι}

variable (h : TimersOk s)

include h

theorem setTime (i : ι) (tick : Nat) : TimersOk (s.rtTimerSetTime i tick) := by
  refine ⟨h.nodup, fun j => ?_, fun j => ?_⟩
  · rcases eq_or_ne j i with rfl | hne
    · simpa [Timers.rtTimerSetTime] using h.activated j
    · simpa [Timers.rtTimerSetTime, Timers.setTimer_of_ne _ _ hne] using h.activated j
  · rcases eq_or_ne j i with rfl | hne
    · simpa [Timers.rtTimerSetTime] using h.oneShot j
    · simpa [Timers.rtTimerSetTime, Timers.setTimer_of_ne _ _ hne] using h.oneShot j

theorem start {err : Err} (hstart : s.rtTimerStart i = some (s', err)) :
    TimersOk s' ∧ ∀ j, j ∈ s'.timerList ↔ j = i ∨ j ∈ s.timerList := by
  obtain ⟨hact, rfl, -⟩ | ⟨hact, rfl, -⟩ := TimerRun.rtTimerStart_cases hstart
  · have hmem := (h.activated i).mp hact
    exact ⟨h, fun j => ⟨.inr, fun hj => hj.elim (fun hji => hji ▸ hmem) id⟩⟩
  · have hfree : i ∉ s.timerList := by
      rw [← h.activated, hact]
      exact Bool.false_ne_true
    have hperm : (TimerRun.started s i).timerList.Perm (i :: s.timerList) :=
      TimerRun.insertRow_perm ..
    refine ⟨⟨?_, fun j => ?_, fun j => ?_⟩, fun j => hperm.mem_iff.trans List.mem_cons⟩
    · exact hperm.nodup_iff.mpr (List.nodup_cons.mpr ⟨hfree, h.nodup⟩)
    · rw [hperm.mem_iff, List.mem_cons]
      rcases eq_or_ne j i with rfl | hne
      · simp
      · simp [TimerRun.started_of_ne hne, hne, h.activated j]
    · rcases eq_or_ne j i with rfl | hne
      · simp [h.oneShot j]
      · simp [TimerRun.started_of_ne hne, h.oneShot j]

/-- A timer is unlinked and its flag is cleared. -/
theorem cleared (i : ι) :
    TimersOk ((s.rtTimerRemove i).setTimer i { s.timer i with activated := false }) := by
  refine ⟨h.nodup.erase i, fun j => ?_, fun j => ?_⟩
  · rw [Timers.setTimer_timerList, Timers.rtTimerRemove_timerList, h.nodup.mem_erase_iff]
    rcases eq_or_ne j i with rfl | hne
    · simp
    · simp [Timers.setTimer_of_ne _ _ hne, hne, h.activated j]
  · rcases eq_or_ne j i with rfl | hne
    · simp [h.oneShot j]
    · simp [Timers.setTimer_of_ne _ _ hne, h.oneShot j]

theorem stop (i : ι) :
    TimersOk (s.rtTimerStop i).1 ∧
      ∀ j, j ∈ (s.rtTimerStop i).1.timerList ↔ j ≠ i ∧ j ∈ s.timerList := by
  cases hact : (s.timer i).activated with
  | true =>
    rw [Timers.rtTimerStop, if_pos hact]
    exact ⟨h.cleared i, fun j => h.nodup.mem_erase_iff⟩
  | false =>
    have hfree : i ∉ s.timerList := by
      rw [← h.activated, hact]
      exact Bool.false_ne_true
    have hstop : (s.rtTimerStop i).1 = s := by simp [Timers.rtTimerStop, hact]
    rw [hstop]
    exact ⟨h, fun j => ⟨fun hj => ⟨fun hji => hfree (hji ▸ hj), hj⟩, And.right⟩⟩

/-- The end of the expiry of a timer. -/
theorem rearm (i : ι) :
    ∃ s', (s.rtTimerRemove i).rearm i = some s' ∧ TimersOk s' ∧
      s'.timerList = s.timerList.erase i := by
  refine ⟨_, ?_, h.cleared i, rfl⟩
  simp [Timers.rearm, h.oneShot i]

end TimersOk

/-! ## Waiting threads -/

/-- The blocking call that suspended a thread, the list it linked the thread into, and whether it
started the thread timer. -/
structure Wait (β : Type) where
  call : β
  list : Option ListHead
  timer : Bool

variable {β : Type} {k k' k1 : Kernel} {wait : Tid → Option (Wait β)} {t : Tid}

/-- A linked thread timer belongs to a thread that is suspended by a call that started the timer,
and a suspended thread is in the list of its call and in no other one. -/
structure Inv (k : Kernel) (wait : Tid → Option (Wait β)) : Prop where
  wf : k.WF
  timers : TimersOk k.threadTimer
  linked : ∀ t ∈ k.threadTimer.timerList,
    (k.thread t).stat = .suspend ∧ ∃ w, wait t = some w ∧ w.timer = true
  suspended : ∀ t, (k.thread t).stat = .suspend →
    ∃ w, wait t = some w ∧ ∀ hd, hd.IsWait → (t ∈ k.tlist hd ↔ w.list = some hd)

namespace Inv

variable (h : Inv k wait)

include h

/-- A step that changes no state of a thread, no wait list and no timer. -/
theorem frame (hwf : k'.WF) (hstat : ∀ u, (k'.thread u).stat = (k.thread u).stat)
    (hlist : ∀ hd, hd.IsWait → k'.tlist hd = k.tlist hd)
    (htimer : k'.threadTimer = k.threadTimer) : Inv k' wait := by
  refine ⟨hwf, htimer ▸ h.timers, fun u hu => ?_, fun u hu => ?_⟩
  · rw [htimer] at hu
    rw [hstat]
    exact h.linked u hu
  · rw [hstat] at hu
    obtain ⟨w, hw, hmem⟩ := h.suspended u hu
    exact ⟨w, hw, fun hd hwait => by rw [hlist hd hwait, hmem hd hwait]⟩

/-- A thread becomes ready, and its timer is unlinked. -/
theorem wakes {err : Err} (hw : Kernel.Wakes k k' t err) (htimers : TimersOk k'.threadTimer)
    (hlist : ∀ u, u ∈ k'.threadTimer.timerList ↔ u ≠ t ∧ u ∈ k.threadTimer.timerList) :
    Inv k' wait := by
  refine ⟨hw.wf, htimers, fun u hu => ?_, fun u hu => ?_⟩
  · obtain ⟨hne, hu⟩ := (hlist u).mp hu
    rw [hw.thread_of_ne hne]
    exact h.linked u hu
  · have hne : u ≠ t := by
      rintro rfl
      rw [hw.thread_same] at hu
      cases hu
    rw [hw.thread_of_ne hne] at hu
    obtain ⟨w, hwait, hmem⟩ := h.suspended u hu
    refine ⟨w, hwait, fun hd hhd => ?_⟩
    rw [hw.mem h.wf hhd, ← hmem hd hhd]
    exact and_iff_right hne

/-- A ready thread is suspended by a call. -/
theorem suspends {w : Wait β} (hwf : k'.WF)
    (hthread : k'.thread = update k.thread t { k.thread t with stat := .suspend })
    (hself : ∀ hd, hd.IsWait → (t ∈ k'.tlist hd ↔ w.list = some hd))
    (hother : ∀ u, u ≠ t → ∀ hd, hd.IsWait → (u ∈ k'.tlist hd ↔ u ∈ k.tlist hd))
    (htimers : TimersOk k'.threadTimer)
    (hlist : ∀ u, u ∈ k'.threadTimer.timerList →
      (u = t ∧ w.timer = true) ∨ u ≠ t ∧ u ∈ k.threadTimer.timerList) :
    Inv k' (update wait t (some w)) := by
  refine ⟨hwf, htimers, fun u hu => ?_, fun u hu => ?_⟩
  · rcases hlist u hu with ⟨rfl, htimer⟩ | ⟨hne, hu⟩
    · refine ⟨by simp [hthread], w, ?_, htimer⟩
      exact update_self ..
    · rw [hthread, update_of_ne hne, update_of_ne hne]
      exact h.linked u hu
  · rcases eq_or_ne u t with rfl | hne
    · exact ⟨w, update_self .., hself⟩
    · rw [hthread, update_of_ne hne] at hu
      obtain ⟨w', hwait, hmem⟩ := h.suspended u hu
      refine ⟨w', by rwa [update_of_ne hne], fun hd hhd => ?_⟩
      rw [hother u hne hd hhd, hmem hd hhd]

/-- A ready thread has no linked timer. -/
theorem not_linked (hready : (k.thread t).stat = .ready) : t ∉ k.threadTimer.timerList := by
  intro hmem
  cases hready.symm.trans (h.linked t hmem).1

/-- The call of a thread that runs again is over. -/
theorem leave (hready : (k.thread t).stat = .ready) : Inv k (update wait t none) := by
  refine ⟨h.wf, h.timers, fun u hu => ?_, fun u hu => ?_⟩
  · have hne : u ≠ t := fun heq => h.not_linked hready (heq ▸ hu)
    rw [update_of_ne hne]
    exact h.linked u hu
  · have hne : u ≠ t := by
      rintro rfl
      cases hready.symm.trans hu
    rw [update_of_ne hne]
    exact h.suspended u hu

end Inv

/-! ## What critical sections do to the threads -/

/-- An action that suspends no thread. It gives another priority to threads of `moved` only, and an
error number other than `RT_EOK` and `RT_ERROR` to threads of `own` only. -/
inductive CalmStep (own moved : Tid → Prop) : Kernel → Kernel → Prop
  | edit (k : Kernel) (t : Tid) (th : Thread) (hstat : th.stat = (k.thread t).stat)
      (hcur : th.currentPriority = (k.thread t).currentPriority)
      (hinit : th.initPriority = (k.thread t).initPriority)
      (hmask : th.numberMask = (k.thread t).numberMask)
      (herror : th.error = (k.thread t).error ∨ th.error = .eok ∨ th.error = .error ∨ own t) :
      CalmStep own moved k (k.setThread t th)
  | resume (k : Kernel) (t : Tid) : CalmStep own moved k (k.rtThreadResume t).1
  | changePriority (k : Kernel) (t : Tid) (arg : Nat) (harg : arg < 32)
      (hmoved : arg ≠ (k.thread t).currentPriority → moved t) :
      CalmStep own moved k (k.rtThreadChangePriority t arg)
  | yield (k : Kernel) (t : Tid) : CalmStep own moved k (k.rtThreadYield t).1

/-- A sequence of such actions. -/
abbrev Calm (own moved : Tid → Prop) : Kernel → Kernel → Prop := Relation.ReflTransGen (CalmStep own moved)

variable {own moved : Tid → Prop}

theorem Calm.setError (k : Kernel) (t : Tid) {err : Err} (h : err = .eok ∨ err = .error ∨ own t) :
    Calm own moved k (k.setError t err) :=
  .single (.edit k t _ rfl rfl rfl rfl (.inr h))

theorem Calm.eok (k : Kernel) (t : Tid) :
    Calm own moved k (k.setError t .eok) := .setError k t (.inl rfl)

/-- The wait lists and the threads after `rt_thread_yield`. -/
theorem yield_wait (h : k.WF) (t : Tid) {hd : ListHead} (hw : hd.IsWait) :
    (k.rtThreadYield t).1.tlist hd = k.tlist hd := by
  unfold Kernel.rtThreadYield
  dsimp only
  split
  next hif =>
    have hne : hd ≠ .priorityTable (k.thread t).currentPriority := by
      rintro rfl
      exact hw
    refine (Lanes.put_of_ne _ _ hne).trans ?_
    exact Lanes.remove_of_not_mem (h.notMem_wait hif.1 hw)
  next => rfl

theorem yield_thread (k : Kernel) (t : Tid) : (k.rtThreadYield t).1.thread = k.thread := by
  unfold Kernel.rtThreadYield
  dsimp only
  split <;> rfl

theorem yield_threadTimer (k : Kernel) (t : Tid) :
    (k.rtThreadYield t).1.threadTimer = k.threadTimer := by
  unfold Kernel.rtThreadYield
  dsimp only
  split <;> rfl

theorem changePriority_threadTimer (k : Kernel) (t : Tid) (arg : Nat) :
    (k.rtThreadChangePriority t arg).threadTimer = k.threadTimer := by
  unfold Kernel.rtThreadChangePriority
  split
  · exact Kernel.rtScheduleRemoveThread_threadTimer k t
  · rfl

theorem changePriority_stat (k : Kernel) (t : Tid) (arg : Nat) (u : Tid) :
    ((k.rtThreadChangePriority t arg).thread u).stat = (k.thread u).stat := by
  rw [Kernel.rtThreadChangePriority_thread]
  rcases eq_or_ne u t with rfl | hne
  · simp
  · simp [hne]

theorem edit_stat {th : Thread} (hstat : th.stat = (k.thread t).stat) (u : Tid) :
    ((k.setThread t th).thread u).stat = (k.thread u).stat := by
  rcases eq_or_ne u t with rfl | hne
  · simpa using hstat
  · rw [Kernel.setThread_of_ne k th hne]

theorem resume_thread (hstat : (k.thread t).stat = .suspend) :
    (k.rtThreadResume t).1.thread = update k.thread t { k.thread t with stat := .ready } := by
  rw [Kernel.rtThreadResume, if_neg (not_not.mpr hstat)]
  rfl

theorem resume_threadTimer (hstat : (k.thread t).stat = .suspend) :
    (k.rtThreadResume t).1.threadTimer = (k.threadTimer.rtTimerStop t).1 := by
  rw [Kernel.rtThreadResume, if_neg (not_not.mpr hstat)]
  rfl

theorem Inv.calmStep (h : Inv k wait) (hk : CalmStep own moved k k') : Inv k' wait := by
  cases hk with
  | edit t th hstat hcur hinit hmask =>
    exact h.frame (h.wf.setThread_of_same hstat hcur hinit hmask) (edit_stat hstat)
      (fun _ _ => rfl) rfl
  | resume t =>
    by_cases hstat : (k.thread t).stat = .suspend
    · have hstop := h.timers.stop t
      rw [← resume_threadTimer hstat] at hstop
      exact h.wakes (h.wf.wakes_resume hstat) hstop.1 hstop.2
    · rw [Kernel.rtThreadResume, if_pos hstat]
      exact h
  | changePriority t arg harg =>
    exact h.frame (h.wf.rtThreadChangePriority t harg) (changePriority_stat k t arg)
      (fun hd hw => h.wf.rtThreadChangePriority_wait t arg hw) (changePriority_threadTimer k t arg)
  | yield t =>
    refine h.frame (h.wf.rtThreadYield t) (fun u => ?_) (fun hd hw => yield_wait h.wf t hw)
      (yield_threadTimer k t)
    rw [yield_thread]

theorem CalmStep.ready (hk : CalmStep own moved k k') (hready : (k.thread t).stat = .ready) :
    (k'.thread t).stat = .ready := by
  cases hk with
  | edit u th hstat => rwa [edit_stat hstat]
  | resume u =>
    by_cases hstat : (k.thread u).stat = .suspend
    · have hne : t ≠ u := by
        rintro rfl
        cases hready.symm.trans hstat
      rwa [resume_thread hstat, update_of_ne hne]
    · rwa [Kernel.rtThreadResume, if_pos hstat]
  | changePriority u arg => rwa [changePriority_stat]
  | yield u => rwa [yield_thread]

theorem Inv.calm (h : Inv k wait) (hk : Calm own moved k k') : Inv k' wait := by
  induction hk with
  | refl => exact h
  | tail _ hlast ih => exact ih.calmStep hlast

theorem Calm.ready (hk : Calm own moved k k') (hready : (k.thread t).stat = .ready) :
    (k'.thread t).stat = .ready := by
  induction hk with
  | refl => exact hready
  | tail _ hlast ih => exact hlast.ready ih

/-- The error number of the thread stays, or it becomes `RT_EOK` or `RT_ERROR`. -/
def Mild (t : Tid) (k k' : Kernel) : Prop :=
  (k'.thread t).error = (k.thread t).error ∨ (k'.thread t).error = .eok ∨
    (k'.thread t).error = .error

theorem Mild.trans (h : Mild t k k1) (h' : Mild t k1 k') : Mild t k k' := by
  rcases h' with heq | hnew
  · rw [Mild, heq]
    exact h
  · exact .inr hnew

theorem Mild.suspend (k : Kernel) (u : Tid) : Mild t k (k.rtThreadSuspend u).1 := by
  left
  unfold Kernel.rtThreadSuspend
  split
  · rfl
  · rcases eq_or_ne t u with rfl | hne
    · simp
    · simp [Kernel.setThread_thread, hne]

theorem CalmStep.mild (hk : CalmStep own moved k k') (ht : ¬ own t) : Mild t k k' := by
  cases hk with
  | edit u th _ _ _ _ herror =>
    rcases eq_or_ne t u with rfl | hne
    · simpa [Mild, ht] using herror
    · exact .inl (by rw [Kernel.setThread_of_ne k th hne])
  | resume u =>
    by_cases hstat : (k.thread u).stat = .suspend
    · rw [Mild, resume_thread hstat]
      rcases eq_or_ne t u with rfl | hne
      · simp
      · simp [hne]
    · exact .inl (by rw [Kernel.rtThreadResume, if_pos hstat])
  | changePriority u arg =>
    rw [Mild, Kernel.rtThreadChangePriority_thread]
    rcases eq_or_ne t u with rfl | hne
    · simp
    · simp [hne]
  | yield u => exact .inl (by rw [yield_thread])

theorem Calm.mild (hk : Calm own moved k k') (ht : ¬ own t) : Mild t k k' := by
  induction hk with
  | refl => exact .inl rfl
  | tail _ hlast ih => exact ih.trans (hlast.mild ht)

/-- Threads leave wait lists, none joins one, and only threads of `moved` get another priority. -/
structure Shrinks (moved : Tid → Prop) (k k' : Kernel) : Prop where
  list : ∀ hd, hd.IsWait → (k'.tlist hd).Sublist (k.tlist hd)
  priority : ∀ t, ¬ moved t → (k'.thread t).currentPriority = (k.thread t).currentPriority

theorem Shrinks.refl (k : Kernel) : Shrinks moved k k := ⟨fun _ _ => List.Sublist.refl _, fun _ _ => rfl⟩

theorem Shrinks.trans (h : Shrinks moved k k1) (h' : Shrinks moved k1 k') : Shrinks moved k k' :=
  ⟨fun hd hw => (h'.list hd hw).trans (h.list hd hw),
    fun t ht => (h'.priority t ht).trans (h.priority t ht)⟩

theorem currentPriority_of_priorities (h : k'.priorities = k.priorities) (t : Tid) :
    (k'.thread t).currentPriority = (k.thread t).currentPriority :=
  congrFun (congrArg Prod.fst h) t

theorem Shrinks.of_wakes {err : Err} (h : Kernel.Wakes k k' t err) : Shrinks moved k k' :=
  ⟨fun hd hw => h.wait hd hw ▸ List.erase_sublist, fun u _ => currentPriority_of_priorities h.priorities u⟩

theorem CalmStep.shrinks (h : k.WF) (hk : CalmStep own moved k k') : Shrinks moved k k' := by
  cases hk with
  | edit t th _ hcur hinit =>
    refine ⟨fun _ _ => List.Sublist.refl _, fun u _ => currentPriority_of_priorities ?_ u⟩
    exact Kernel.priorities_of_update (Kernel.setThread_thread ..) hcur hinit
  | resume t =>
    by_cases hstat : (k.thread t).stat = .suspend
    · exact .of_wakes (h.wakes_resume hstat)
    · rw [Kernel.rtThreadResume, if_pos hstat]
      exact .refl k
  | changePriority t arg _ hmoved =>
    refine ⟨fun hd hw => h.rtThreadChangePriority_wait t arg hw ▸ List.Sublist.refl _, fun u hu => ?_⟩
    rw [Kernel.rtThreadChangePriority_thread]
    rcases eq_or_ne u t with rfl | hne
    · rw [update_self]
      exact not_not.mp (mt hmoved hu)
    · rw [update_of_ne hne]
  | yield t =>
    exact ⟨fun hd hw => yield_wait h t hw ▸ List.Sublist.refl _, fun u _ => by rw [yield_thread]⟩

theorem Inv.calm_shrinks (h : Inv k wait) (hk : Calm own moved k k') : Shrinks moved k k' := by
  induction hk with
  | refl => exact .refl k
  | tail hfirst hlast ih => exact ih.trans (hlast.shrinks (h.calm hfirst).wf)

/-- How a critical section of thread `t` with the waiting time `time` ends: with the thread
running, or suspended in the list `hd` for that time, as the flag of the object says. -/
inductive Section (own moved : Tid → Prop) (k k' : Kernel) (t : Tid) (time : Int) (flag : IpcFlag) :
    Option (ListHead × Int) → Prop
  | calm (h : Calm own moved k k') : Section own moved k k' t time flag none
  | blocks {k1 : Kernel} {hd : ListHead} (h : Calm own moved k k1) (hw : hd.IsWait) (htime : time ≠ 0)
      (hk : (k1.rtIpcListSuspend hd t flag).startThreadTimer t time = some k') :
      Section own moved k k' t time flag (some (hd, time))

theorem Section.mild {u : Tid} {time : Int} {flag : IpcFlag} {b : Option (ListHead × Int)}
    (hk : Section own moved k k' u time flag b) (ht : ¬ own t) : Mild t k k' := by
  cases hk with
  | calm hcalm => exact hcalm.mild ht
  | blocks hcalm hw htime hk =>
    obtain ⟨timers, rfl⟩ := Kernel.startThreadTimer_eq_some hk
    exact (hcalm.mild ht).trans (.suspend _ u)

/-- The wait that a section leaves behind. -/
def waitOf (call : β) (b : ListHead × Int) : Wait β := ⟨call, some b.1, decide (0 < b.2)⟩

/-- The timers after `startThreadTimer`. -/
theorem TimersOk.startThreadTimer {time : Int} (h : TimersOk k.threadTimer)
    (hk : k.startThreadTimer t time = some k') :
    TimersOk k'.threadTimer ∧ ∀ u, u ∈ k'.threadTimer.timerList ↔
      (u = t ∧ 0 < time) ∨ u ∈ k.threadTimer.timerList := by
  unfold Kernel.startThreadTimer at hk
  split at hk
  next htime =>
    obtain ⟨⟨timers, err⟩, hstart, ⟨⟩⟩ := Option.bind_eq_some_iff.mp hk
    obtain ⟨hok, hlist⟩ := (h.setTime t time.toNat).start hstart
    exact ⟨hok, fun u => by rw [hlist u, and_iff_left htime]; rfl⟩
  next htime =>
    cases hk
    exact ⟨h, fun u => by simp [htime]⟩

theorem suspend_threadTimer (hready : (k.thread t).stat = .ready) :
    (k.rtThreadSuspend t).1.threadTimer = k.threadTimer := by
  rw [Kernel.rtThreadSuspend_of_ready hready]
  exact Kernel.rtScheduleRemoveThread_threadTimer k t

theorem Inv.blocks {hd : ListHead} {flag : IpcFlag} {time : Int} (call : β) (h : Inv k wait)
    (hready : (k.thread t).stat = .ready) (hw : hd.IsWait)
    (hk : (k.rtIpcListSuspend hd t flag).startThreadTimer t time = some k') :
    Inv k' (update wait t (some (waitOf call (hd, time)))) := by
  have hsus := h.wf.block hready hw hk
  have htimer : (k.rtIpcListSuspend hd t flag).threadTimer = k.threadTimer :=
    suspend_threadTimer hready
  obtain ⟨hok, hlist⟩ := TimersOk.startThreadTimer (htimer ▸ h.timers) hk
  rw [htimer] at hlist
  have hfree : ∀ hd', hd'.IsWait → t ∉ k.tlist hd' := fun hd' hw' => h.wf.notMem_wait hready hw'
  refine h.suspends hsus.wf hsus.thread (fun hd' hw' => ?_) (fun u hne hd' hw' => ?_) hok
    (fun u hu => ?_)
  · rcases eq_or_ne hd' hd with rfl | hne
    · simp [hsus.mem, waitOf]
    · rw [hsus.other hd' hw' hne]
      simp [waitOf, hfree hd' hw', Ne.symm hne]
  · rcases eq_or_ne hd' hd with rfl | hne'
    · simp [hsus.mem, hne]
    · rw [hsus.other hd' hw' hne']
  · rcases (hlist u).mp hu with ⟨rfl, htime⟩ | hu
    · exact .inl ⟨rfl, decide_eq_true htime⟩
    · exact .inr ⟨fun heq => h.not_linked hready (heq ▸ hu), hu⟩

theorem Inv.section {time : Int} {flag : IpcFlag} {b : Option (ListHead × Int)} (call : β) (h : Inv k wait)
    (hready : time = 0 ∨ (k.thread t).stat = .ready) (hk : Section own moved k k' t time flag b) :
    Inv k' (match b with
      | none => wait
      | some b => update wait t (some (waitOf call b))) := by
  cases hk with
  | calm hcalm => exact h.calm hcalm
  | blocks hcalm hw htime hk =>
    exact (h.calm hcalm).blocks call (hcalm.ready (hready.resolve_left htime)) hw hk

theorem rtThreadSleep_eq_some {tick : Nat} (hk : k.rtThreadSleep t tick = some k') :
    ∃ timers err, ((k.rtThreadSuspend t).1.threadTimer.rtTimerSetTime t tick).rtTimerStart t =
      some (timers, err) ∧ k' = { (k.rtThreadSuspend t).1 with threadTimer := timers } := by
  obtain ⟨⟨timers, err⟩, hstart, hk'⟩ := Option.bind_eq_some_iff.mp hk
  exact ⟨timers, err, hstart, (Option.some.inj hk').symm⟩

/-- `rt_thread_sleep` suspends its thread in no list. -/
theorem Inv.sleep {tick : Nat} (call : β) (h : Inv k wait) (hready : (k.thread t).stat = .ready)
    (hk : k.rtThreadSleep t tick = some k') : Inv k' (update wait t (some ⟨call, none, true⟩)) := by
  have hwf := h.wf.rtThreadSleep hk
  obtain ⟨timers, err, hstart, rfl⟩ := rtThreadSleep_eq_some hk
  rw [suspend_threadTimer hready] at hstart
  obtain ⟨hok, hlist⟩ := (h.timers.setTime t tick).start hstart
  have hwait : ∀ hd, hd.IsWait → (k.rtThreadSuspend t).1.tlist hd = k.tlist hd :=
    fun hd hw => h.wf.rtThreadSuspend_wait hready hw
  refine h.suspends hwf (Kernel.rtThreadSuspend_thread hready) (fun hd hw => ?_)
    (fun u _ hd hw => ?_) hok (fun u hu => ?_)
  · simpa [hwait hd hw] using h.wf.notMem_wait hready hw
  · simp only [hwait hd hw]
  · rcases (hlist u).mp hu with rfl | hu
    · exact .inl ⟨rfl, rfl⟩
    · exact .inr ⟨fun heq => h.not_linked hready (heq ▸ hu), hu⟩

/-! ## The tick -/

/-- The loop of `rt_timer_check` on the thread timers, with at most `fuel` rounds. -/
def rtTimerCheckLoop : Nat → Nat → Kernel → Option Kernel
  | 0, _, _ => none
  | fuel + 1, currentTick, k =>
    match k.threadTimer.timerList with
    | [] => some k
    | t :: _ =>
      if sub32 currentTick (k.threadTimer.timer t).timeoutTick < rtTickMax / 2 then do
        let k ← k.expire t
        rtTimerCheckLoop fuel k.threadTimer.rtTick k
      else
        some k

/-- `rt_tick_increase` up to the time slice of the running thread: the tick, then
`rt_timer_check`. A round unlinks a timer and links none. -/
def rtTickIncrease (k : Kernel) : Option Kernel :=
  let k := { k with threadTimer := { k.threadTimer with rtTick := add32 k.threadTimer.rtTick 1 } }
  rtTimerCheckLoop (k.threadTimer.timerList.length + 1) k.threadTimer.rtTick k

/-- The expiry of a linked timer of a suspended thread. -/
theorem expire_defined {timers : Timers Tid} (hmem : t ∈ k.threadTimer.timerList)
    (hstat : (k.thread t).stat = .suspend)
    (hrearm : (k.threadTimer.rtTimerRemove t).rearm t = some timers) :
    ∃ k', k.expire t = some k' ∧ k'.threadTimer = timers := by
  have htimeout : ∃ k1, ({ k with threadTimer := k.threadTimer.rtTimerRemove t } : Kernel).rtThreadTimeout
      t = some k1 ∧ k1.threadTimer = k.threadTimer.rtTimerRemove t :=
    ⟨_, rtAssert_bind_eq_some.mpr ⟨hstat, rfl⟩, rfl⟩
  obtain ⟨k1, hk1, htimer⟩ := htimeout
  refine ⟨{ k1 with threadTimer := timers }, rtAssert_bind_eq_some.mpr ⟨hmem, ?_⟩, rfl⟩
  refine Option.bind_eq_some_iff.mpr ⟨k1, hk1, ?_⟩
  rw [htimer, hrearm]
  rfl

variable (h : Inv k wait)

include h

/-- The assertion of `rt_thread_timeout` holds, and the expired thread is ready. -/
theorem Inv.expire (hmem : t ∈ k.threadTimer.timerList) :
    ∃ k', k.expire t = some k' ∧ Inv k' wait ∧
      k'.threadTimer.timerList.length < k.threadTimer.timerList.length ∧
      ∀ u, (k.thread u).stat ≠ .suspend → k'.thread u = k.thread u := by
  obtain ⟨timers, hrearm, hok, hlist⟩ := h.timers.rearm t
  have hstat := (h.linked t hmem).1
  obtain ⟨k', hexpire, rfl⟩ := expire_defined hmem hstat hrearm
  have hwakes := h.wf.wakes_expire hexpire
  refine ⟨k', hexpire, h.wakes hwakes hok fun u => ?_, ?_, fun u hu => ?_⟩
  · rw [hlist]
    exact h.timers.nodup.mem_erase_iff
  · rw [hlist, List.length_erase_of_mem hmem]
    exact Nat.sub_lt (List.length_pos_of_mem hmem) Nat.one_pos
  · exact hwakes.thread_of_ne fun heq => hu (heq ▸ hstat)

/-- The same for an expiry that is known to be defined. -/
theorem Inv.expired (hmem : t ∈ k.threadTimer.timerList)
    (hk : k.expire t = some k') : Inv k' wait := by
  obtain ⟨k1, hk1, hinv, -⟩ := h.expire hmem
  obtain rfl : k1 = k' := Option.some.inj (hk1.symm.trans hk)
  exact hinv

theorem Inv.rtTimerCheckLoop {fuel currentTick : Nat}
    (hfuel : k.threadTimer.timerList.length < fuel) :
    ∃ k', WaitTimer.rtTimerCheckLoop fuel currentTick k = some k' ∧ Inv k' wait ∧
      ∀ u, (k.thread u).stat ≠ .suspend → k'.thread u = k.thread u := by
  induction fuel generalizing k currentTick with
  | zero => omega
  | succ fuel ih =>
    rw [WaitTimer.rtTimerCheckLoop]
    split
    · exact ⟨k, rfl, h, fun _ _ => rfl⟩
    next t rest hlist =>
      split
      · obtain ⟨k1, hexpire, hinv, hlen, hsame⟩ := h.expire (t := t) (by simp [hlist])
        obtain ⟨k', hloop, hinv', hsame'⟩ := ih hinv (by omega)
        refine ⟨k', Option.bind_eq_some_iff.mpr ⟨k1, hexpire, hloop⟩, hinv', fun u hu => ?_⟩
        have hu' := hsame u hu
        rw [hsame' u (hu' ▸ hu), hu']
      · exact ⟨k, rfl, h, fun _ _ => rfl⟩

theorem Inv.rtTimerCheckLoop_shrinks {fuel currentTick : Nat}
    (hk : WaitTimer.rtTimerCheckLoop fuel currentTick k = some k') : Shrinks moved k k' := by
  induction fuel generalizing k currentTick with
  | zero => cases hk
  | succ fuel ih =>
    rw [WaitTimer.rtTimerCheckLoop] at hk
    split at hk
    · cases hk
      exact .refl _
    next t rest hlist =>
      split at hk
      · obtain ⟨k1, hexpire, hk⟩ := Option.bind_eq_some_iff.mp hk
        have hinv := h.expired (by simp [hlist]) hexpire
        exact (Shrinks.of_wakes (h.wf.wakes_expire hexpire)).trans (ih hinv hk)
      · cases hk
        exact .refl _

theorem Inv.tick : Inv { k with threadTimer :=
    { k.threadTimer with rtTick := add32 k.threadTimer.rtTick 1 } } wait :=
  ⟨h.wf.congr rfl rfl rfl, ⟨h.timers.nodup, h.timers.activated, h.timers.oneShot⟩, h.linked,
    h.suspended⟩

/-- No assertion fails in a tick, and only suspended threads are changed. -/
theorem Inv.rtTickIncrease :
    ∃ k', WaitTimer.rtTickIncrease k = some k' ∧ Inv k' wait ∧
      ∀ u, (k.thread u).stat ≠ .suspend → k'.thread u = k.thread u :=
  h.tick.rtTimerCheckLoop (Nat.lt_succ_self _)

theorem Inv.rtTickIncrease_shrinks (hk : WaitTimer.rtTickIncrease k = some k') :
    Shrinks moved k k' := by
  have hshrinks : Shrinks moved _ k' := h.tick.rtTimerCheckLoop_shrinks hk
  exact ⟨hshrinks.list, hshrinks.priority⟩

end RtThread.WaitTimer
