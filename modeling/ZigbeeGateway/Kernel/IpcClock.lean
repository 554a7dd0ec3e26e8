-- SUMMARY: Thread timers of the IPC system expire on time.
import ZigbeeGateway.Kernel.IpcRun
import ZigbeeGateway.Kernel.TimerExact

/-!
# The clock of the IPC system

`TimerExact` shows for timers on their own that each one fires at its deadline. Here the same
invariant is carried along the runs of `IpcRun`, where every blocking call starts and stops
thread timers: `OnTime` says that the linked thread timers are sorted by deadlines that have
not passed.

The second half looks at one thread `t`. A step in which `t` takes no part leaves the clock, and
as long as `t` is suspended also its timer, as they are (`Rests`); it gives `t` no error number
but `RT_EOK` and `RT_ERROR` (`Mild`). Only `rt_timer_check` sets `RT_ETIMEOUT`, and only when the
timer is due (`Rings`).
-/

namespace RtThread.IpcClock

open Word Run WaitTimer Function
open Option (bind_eq_some_iff)

variable {k k' k1 : Kernel} {t u : Tid} {hd : ListHead} {now : Nat} {own moved : Tid → Prop}

/-! ## Thread timers on time -/

/-- The clock shows the tick `now`, and the linked timers are sorted by their deadlines, none of
which has passed. -/
def OnTime (timers : Timers Tid) (now : Nat) : Prop :=
  ∃ g : TimerRun.History Tid, g.now = now ∧ TimerRun.Inv timers g now

namespace OnTime

variable {timers timers' : Timers Tid}

section

variable (h : OnTime timers now)

include h

theorem rtTick : timers.rtTick = now % size32 := by
  obtain ⟨g, rfl, hinv⟩ := h
  exact hinv.rtTick

/-- A linked timer has not passed its deadline. The deadline is read off the wrapped timeout tick:
it is the only one within half the tick range. -/
theorem le_deadline {d : Nat} (hmem : t ∈ timers.timerList)
    (htick : (timers.timer t).timeoutTick = d % size32) (hlo : now ≤ d + 1)
    (hhi : d < now + rtTickMax / 2) : now ≤ d := by
  obtain ⟨g, rfl, hinv⟩ := h
  have hl := hinv.linked t hmem
  have hle := hl.lo_le
  have hstart := hl.startedAt_le
  have hinit := hl.startable.1
  have hmod := hl.timeoutTick.symm.trans htick
  have hlt : TimerRun.deadline timers g t < g.now + rtTickMax / 2 := by
    unfold TimerRun.deadline
    omega
  unfold rtTickMax at *
  unfold size32 at *
  omega

theorem stop (t : Tid) : OnTime (timers.rtTimerStop t).1 now := by
  obtain ⟨g, hnow, hinv⟩ := h
  rcases TimerRun.rtTimerStop_cases timers t with heq | heq
  · exact ⟨g, hnow, by rwa [heq]⟩
  · exact ⟨g, hnow, by rw [heq]; exact hinv.stopped t⟩

/-- The time of a timer that is not linked may be set. -/
theorem setTime (hfree : t ∉ timers.timerList) (tick : Nat) :
    OnTime (timers.rtTimerSetTime t tick) now := by
  obtain ⟨g, hnow, hinv⟩ := h
  have hsame : ∀ i ∈ timers.timerList, (timers.rtTimerSetTime t tick).timer i = timers.timer i := by
    intro i hi
    exact Timers.setTimer_of_ne _ _ fun heq => hfree (heq ▸ hi)
  have hdeadline : ∀ i ∈ timers.timerList,
      TimerRun.deadline (timers.rtTimerSetTime t tick) g i = TimerRun.deadline timers g i := by
    intro i hi
    exact TimerRun.deadline_congr (by rw [hsame i hi]) rfl
  refine ⟨g, hnow, hinv.rtTick, fun i hi => ?_, ?_⟩
  · exact (hinv.linked i hi).congr (hsame i hi) rfl rfl le_rfl le_rfl
  · exact hinv.sorted.imp_of_mem fun ha hb hab => hab.congr (hdeadline _ ha) (hdeadline _ hb) rfl rfl

/-- `rt_timer_control` and `rt_timer_start` of a timer that is not linked. -/
theorem start {tick : Nat} {err : Err} (hok : TimersOk timers) (hfree : t ∉ timers.timerList)
    (hstart : (timers.rtTimerSetTime t tick).rtTimerStart t = some (timers', err)) :
    OnTime timers' now ∧ tick < rtTickMax / 2 ∧
      timers' = TimerRun.started (timers.rtTimerSetTime t tick) t := by
  have hact : ((timers.rtTimerSetTime t tick).timer t).activated = false := by
    rw [← Bool.not_eq_true, (hok.setTime t tick).activated t]
    exact hfree
  have hone : ((timers.rtTimerSetTime t tick).timer t).periodic = false :=
    (hok.setTime t tick).oneShot t
  have htick : tick < rtTickMax / 2 := by
    simp only [Timers.rtTimerStart, hact, Bool.false_eq_true, if_false, rtAssert_bind_eq_some] at hstart
    simpa [Timers.rtTimerSetTime] using hstart.1
  obtain ⟨hact', -, -⟩ | ⟨-, rfl, -⟩ := TimerRun.rtTimerStart_cases hstart
  · cases hact.symm.trans hact'
  · obtain ⟨g, rfl, hinv⟩ := h.setTime hfree tick
    have hstartable : TimerRun.Startable ((timers.rtTimerSetTime t tick).timer t) := by
      refine ⟨by simpa [Timers.rtTimerSetTime] using htick, fun hp => ?_⟩
      cases hone.symm.trans hp
    refine ⟨⟨g.restart t, rfl, ?_⟩, htick, rfl⟩
    exact hinv.started le_rfl (Nat.le_succ _) hfree hstartable

end

theorem calm (h : OnTime k.threadTimer now) (hk : Calm own moved k k') : OnTime k'.threadTimer now := by
  induction hk with
  | refl => exact h
  | tail _ hlast ih =>
    cases hlast with
    | edit u th => exact ih
    | resume u =>
      rename_i m _
      by_cases hstat : (m.thread u).stat = .suspend
      · rw [resume_threadTimer hstat]
        exact ih.stop u
      · rwa [Kernel.rtThreadResume, if_pos hstat]
    | changePriority u arg => rwa [changePriority_threadTimer]
    | yield u => rwa [yield_threadTimer]

end OnTime

variable {time : Int}

/-- The timers after `startThreadTimer` of a thread whose timer is not linked. -/
theorem startThreadTimer_timers (h : OnTime k.threadTimer now)
    (hok : TimersOk k.threadTimer) (hfree : t ∉ k.threadTimer.timerList)
    (hk : k.startThreadTimer t time = some k') :
    OnTime k'.threadTimer now ∧
      (0 < time → time < (rtTickMax / 2 : Nat) ∧ k'.threadTimer =
        TimerRun.started (k.threadTimer.rtTimerSetTime t time.toNat) t) := by
  unfold Kernel.startThreadTimer at hk
  split at hk
  next htime =>
    obtain ⟨⟨timers, err⟩, hstart, ⟨⟩⟩ := bind_eq_some_iff.mp hk
    obtain ⟨hon, hlt, heq⟩ := h.start hok hfree hstart
    exact ⟨hon, fun _ => ⟨by omega, heq⟩⟩
  next htime =>
    cases hk
    exact ⟨h, fun hpos => absurd hpos htime⟩

/-- Of the timers, an expiry stops the one that expired and leaves the others and the tick as
they are. -/
theorem expire_threadTimer (hone : (k.threadTimer.timer t).periodic = false)
    (hk : k.expire t = some k') :
    (k.threadTimer.rtTimerRemove t).rearm t = some k'.threadTimer ∧
      k'.threadTimer = TimerRun.stopped k.threadTimer t := by
  obtain ⟨-, hk⟩ := rtAssert_bind_eq_some.mp hk
  obtain ⟨k1, hto, hk⟩ := bind_eq_some_iff.mp hk
  obtain ⟨timers, hrearm, ⟨⟩⟩ := bind_eq_some_iff.mp hk
  obtain ⟨-, ⟨⟩⟩ := rtAssert_bind_eq_some.mp hto
  have hstopped : (k.threadTimer.rtTimerRemove t).rearm t =
      some (TimerRun.stopped k.threadTimer t) := by
    simp [Timers.rearm, hone, TimerRun.stopped]
  exact ⟨hrearm, Option.some.inj (hrearm.symm.trans hstopped)⟩

section Waits

variable {β : Type} {wait : Tid → Option (Wait β)}

/-- The check of the kernel does to the timers what the check of `timer.c` does with a timeout
function that leaves the timers alone. -/
theorem rtTimerCheckLoop_threadTimer {fuel currentTick : Nat} (h : WaitTimer.Inv k wait)
    (hk : WaitTimer.rtTimerCheckLoop fuel currentTick k = some k') :
    ∃ fired, Timers.rtTimerCheckLoop TimerRun.keepTimers fuel currentTick k.threadTimer =
      some (k'.threadTimer, fired) := by
  induction fuel generalizing k currentTick with
  | zero => cases hk
  | succ fuel ih =>
    rw [WaitTimer.rtTimerCheckLoop] at hk
    rw [Timers.rtTimerCheckLoop]
    split at hk
    next hlist =>
      cases hk
      exact ⟨[], by rw [hlist]⟩
    next u rest hlist =>
      simp only [hlist]
      split at hk
      next hdue =>
        obtain ⟨k1, hexpire, hk⟩ := bind_eq_some_iff.mp hk
        obtain ⟨hrearm, htimers⟩ := expire_threadTimer (h.timers.oneShot u) hexpire
        obtain ⟨fired, hloop⟩ := ih (h.expired (by simp [hlist]) hexpire) hk
        have htick : k1.threadTimer.rtTick = k.threadTimer.rtTick := by
          rw [htimers]
          rfl
        rw [htick] at hloop
        refine ⟨u :: fired, ?_⟩
        simp [hdue, TimerRun.keepTimers, hrearm, hloop]
      next hdue =>
        cases hk
        exact ⟨[], by rw [if_neg hdue]⟩

/-- The tick fires what is due and leaves the other timers sorted. -/
theorem OnTime.rtTickIncrease (h : OnTime k.threadTimer now) (hw : WaitTimer.Inv k wait)
    (hk : WaitTimer.rtTickIncrease k = some k') : OnTime k'.threadTimer (now + 1) := by
  obtain ⟨g, rfl, hinv⟩ := h
  obtain ⟨fired, hloop⟩ := rtTimerCheckLoop_threadTimer hw.tick hk
  have hnext : TimerRun.Inv { k.threadTimer with rtTick := add32 k.threadTimer.rtTick 1 }
      { g with now := g.now + 1 } g.now := by
    refine ⟨?_, fun i hi => ?_, hinv.sorted⟩
    · simp only [add32, hinv.rtTick, size32]
      omega
    · exact (hinv.linked i hi).congr rfl rfl rfl (Nat.le_succ _) le_rfl
  obtain ⟨timers, hrun, hchecked⟩ := TimerRun.rtTimerCheckLoop_spec
    (k.threadTimer.timerList.length + 1) hnext rfl (Nat.lt_succ_of_le (List.length_filter_le _ _))
  obtain ⟨rfl, -⟩ : timers = k'.threadTimer ∧ _ := by
    simpa using hrun.symm.trans hloop
  exact ⟨_, by simp, hchecked.inv⟩

end Waits

/-! ## A thread that takes no part in a step -/

/-- The tick stays, and if the thread is still suspended then it was, with the same timer. -/
structure Rests (t : Tid) (k k' : Kernel) : Prop where
  rtTick : k'.threadTimer.rtTick = k.threadTimer.rtTick
  still : (k'.thread t).stat = .suspend →
    (k.thread t).stat = .suspend ∧ k'.threadTimer.timer t = k.threadTimer.timer t

namespace Rests

theorem refl (t : Tid) (k : Kernel) : Rests t k k := ⟨rfl, fun h => ⟨h, rfl⟩⟩

theorem trans (h : Rests t k k1) (h' : Rests t k1 k') : Rests t k k' := by
  refine ⟨h'.rtTick.trans h.rtTick, fun hstat => ?_⟩
  obtain ⟨hstat1, htimer1⟩ := h'.still hstat
  obtain ⟨hstat0, htimer0⟩ := h.still hstat1
  exact ⟨hstat0, htimer1.trans htimer0⟩

/-- The same timers, and the thread is not suspended. -/
theorem of_stat (htimer : k'.threadTimer = k.threadTimer)
    (hstat : (k'.thread t).stat = (k.thread t).stat) : Rests t k k' :=
  ⟨by rw [htimer], fun h => ⟨hstat ▸ h, by rw [htimer]⟩⟩

theorem resume (k : Kernel) (u : Tid) : Rests t k (k.rtThreadResume u).1 := by
  by_cases hstat : (k.thread u).stat = .suspend
  · have htimer := resume_threadTimer hstat
    have hstop : ∀ i, i ≠ u → (k.threadTimer.rtTimerStop u).1.timer i = k.threadTimer.timer i := by
      intro i hne
      rcases TimerRun.rtTimerStop_cases k.threadTimer u with heq | heq
      · rw [heq]
      · rw [heq, TimerRun.stopped_of_ne hne]
    have htick : (k.threadTimer.rtTimerStop u).1.rtTick = k.threadTimer.rtTick := by
      rcases TimerRun.rtTimerStop_cases k.threadTimer u with heq | heq
      · rw [heq]
      · rw [heq]
        rfl
    refine ⟨by rw [htimer, htick], fun h => ?_⟩
    rw [resume_thread hstat] at h
    rcases eq_or_ne t u with rfl | hne
    · simp at h
    · rw [update_of_ne hne] at h
      exact ⟨h, by rw [htimer, hstop t hne]⟩
  · rw [Kernel.rtThreadResume, if_pos hstat]
    exact .refl t k

theorem calm (hk : Calm own moved k k') : Rests t k k' := by
  induction hk with
  | refl => exact .refl t k
  | tail _ hlast ih =>
    refine ih.trans ?_
    cases hlast with
    | edit u th hstat => exact .of_stat rfl (edit_stat hstat t)
    | resume u => exact .resume _ u
    | changePriority u arg =>
      exact .of_stat (changePriority_threadTimer _ u arg) (changePriority_stat _ u arg t)
    | yield u => exact .of_stat (yield_threadTimer _ u) (by rw [yield_thread])

/-- Another thread starts its timer. -/
theorem startThreadTimer (hne : t ≠ u) (hk : k.startThreadTimer u time = some k') :
    Rests t k k' := by
  unfold Kernel.startThreadTimer at hk
  split at hk
  · obtain ⟨⟨timers, err⟩, hstart, ⟨⟩⟩ := bind_eq_some_iff.mp hk
    obtain ⟨-, rfl, -⟩ | ⟨-, rfl, -⟩ := TimerRun.rtTimerStart_cases hstart
    · refine ⟨rfl, fun h => ⟨h, ?_⟩⟩
      exact Timers.setTimer_of_ne _ _ hne
    · refine ⟨rfl, fun h => ⟨h, ?_⟩⟩
      exact (TimerRun.started_of_ne hne).trans (Timers.setTimer_of_ne _ _ hne)
  · cases hk
    exact .refl t k

/-- Another thread is suspended. -/
theorem suspend (hne : t ≠ u) (hready : (k.thread u).stat = .ready) :
    Rests t k (k.rtThreadSuspend u).1 := by
  refine .of_stat (suspend_threadTimer hready) ?_
  rw [Kernel.rtThreadSuspend_thread hready, update_of_ne hne]

end Rests

/-! ## Steps -/

open IpcRun

variable {s s' : Sys} {e : Event}

/-- What a step does to a thread that takes no part in it. -/
structure Spares (t : Tid) (s s' : Sys) : Prop where
  rests : Rests t s.kernel s'.kernel
  mild : Mild t s.kernel s'.kernel
  wait : s'.wait t = s.wait t

/-- A step that is no part of `rt_timer_check` keeps the thread timers on time and spares the
threads that are in a call, but for the one that goes on. -/
structure Acts (s s' : Sys) (e : Event) : Prop where
  onTime : ∀ now, OnTime s.kernel.threadTimer now → OnTime s'.kernel.threadTimer now
  spares : ∀ t, s.wait t ≠ none → e ≠ .resume t → Spares t s s'

/-- A section of thread `u` keeps the thread timers on time. -/
theorem OnTime.section {wait : Tid → Option (Wait Call)} {flag : IpcFlag} {b : Option (ListHead × Int)}
    (h : OnTime k.threadTimer now) (hinv : WaitTimer.Inv k wait)
    (hready : time = 0 ∨ (k.thread u).stat = .ready) (hk : Section own moved k k' u time flag b) :
    OnTime k'.threadTimer now := by
  cases hk with
  | calm hcalm => exact h.calm hcalm
  | @blocks k1 hd hcalm hw htime hk =>
    have hready1 := hcalm.ready (hready.resolve_left htime)
    have hinv1 := hinv.calm hcalm
    have htimer : (k1.rtIpcListSuspend hd u flag).threadTimer = k1.threadTimer :=
      suspend_threadTimer hready1
    have hon := h.calm hcalm
    rw [← htimer] at hon
    refine (startThreadTimer_timers hon (htimer ▸ hinv1.timers) ?_ hk).1
    rw [htimer]
    exact hinv1.not_linked hready1

/-- The section of a thread `u`, for a thread that is not suspended by it. -/
theorem Rests.section {flag : IpcFlag} {b : Option (ListHead × Int)}
    (hready : time = 0 ∨ (k.thread u).stat = .ready) (hself : t = u → time = 0)
    (hk : Section own moved k k' u time flag b) : Rests t k k' ∧ (b = none ∨ t ≠ u) := by
  cases hk with
  | calm hcalm => exact ⟨.calm hcalm, .inl rfl⟩
  | @blocks k1 hd hcalm hw htime hk =>
    have hready1 := hcalm.ready (hready.resolve_left htime)
    have htu : t ≠ u := fun heq => htime (hself heq)
    have hsuspend : Rests t k1 (k1.rtIpcListSuspend hd u flag) := by
      obtain ⟨htick, hstill⟩ := Rests.suspend htu hready1
      exact ⟨htick, hstill⟩
    exact ⟨((Rests.calm hcalm).trans hsuspend).trans (.startThreadTimer htu hk), .inr htu⟩

/-- `rt_thread_sleep` of another thread. -/
theorem Rests.sleep {tick : Nat} (hne : t ≠ u) (hready : (k.thread u).stat = .ready)
    (hk : k.rtThreadSleep u tick = some k') : Rests t k k' := by
  obtain ⟨timers, err, hstart, rfl⟩ := rtThreadSleep_eq_some hk
  rw [suspend_threadTimer hready] at hstart
  have hthread := Kernel.rtThreadSuspend_thread hready
  have hstat : ((k.rtThreadSuspend u).1.thread t).stat = (k.thread t).stat := by
    rw [hthread, update_of_ne hne]
  obtain ⟨-, rfl, -⟩ | ⟨-, rfl, -⟩ := TimerRun.rtTimerStart_cases hstart
  · exact ⟨rfl, fun h => ⟨hstat ▸ h, Timers.setTimer_of_ne _ _ hne⟩⟩
  · refine ⟨rfl, fun h => ⟨hstat ▸ h, ?_⟩⟩
    exact (TimerRun.started_of_ne hne).trans (Timers.setTimer_of_ne _ _ hne)

/-- Every other step acts so. -/
theorem step_acts (h : IpcRun.Inv s) (hproper : proper s e = true) (he : ¬ Checks e)
    (hs : IpcRun.step s e = some s') : Acts s s' e := by
  cases (h.step_effect hs).threads with
  | @«section» u time flag b call own w hw hready hk hlist hwait hapart =>
    refine ⟨fun now hon => hon.section hw hready hk, fun t ht hne => ?_⟩
    obtain ⟨hself, hown, hsame⟩ := hapart hproper t ht hne
    obtain ⟨hrests, hb⟩ := Rests.section hready hself hk
    refine ⟨hrests, hk.mild hown, ?_⟩
    rw [hwait, ← hsame]
    rcases hb with rfl | htu
    · rfl
    · cases b with
      | none => rfl
      | some b => exact update_of_ne htu _ _
  | @sleep u tick hready hnone hk hwait =>
    obtain ⟨timers, err, hstart, heq⟩ := rtThreadSleep_eq_some hk
    rw [suspend_threadTimer hready] at hstart
    refine ⟨fun now hon => ?_, fun t ht _ => ?_⟩
    · rw [heq]
      exact (hon.start h.wait.timers (h.wait.not_linked hready) hstart).1
    · have htu : t ≠ u := fun heq => ht (heq ▸ hnone)
      refine ⟨.sleep htu hready hk, ?_, ?_⟩
      · rw [heq]
        exact .suspend s.kernel u
      · rw [hwait]
        exact update_of_ne htu _ _
  | tick hcheck => exact absurd hcheck he
  | expire hcheck => exact absurd hcheck he

/-! ## The check -/

/-- The test of `rt_timer_check`. -/
def Due (timers : Timers Tid) (t : Tid) : Prop :=
  sub32 timers.rtTick (timers.timer t).timeoutTick < rtTickMax / 2

/-- What `rt_timer_check` does to a thread: nothing, or its timer is due, and the thread becomes
ready with `RT_ETIMEOUT`. -/
inductive Rings (t : Tid) (k k' : Kernel) : Prop
  | kept (hthread : k'.thread t = k.thread t)
      (htimer : k'.threadTimer.timer t = k.threadTimer.timer t)
  | expired (hsuspend : (k.thread t).stat = .suspend) (hdue : Due k.threadTimer t)
      (hready : (k'.thread t).stat = .ready) (herror : (k'.thread t).error = .etimeout)

theorem Rings.trans (h : Rings t k k1) (h' : Rings t k1 k')
    (htick : k1.threadTimer.rtTick = k.threadTimer.rtTick) : Rings t k k' := by
  cases h with
  | kept hthread htimer =>
    cases h' with
    | kept hthread' htimer' => exact .kept (hthread'.trans hthread) (htimer'.trans htimer)
    | expired hsuspend hdue hready herror =>
      rw [Due, htick, htimer] at hdue
      exact .expired (hthread ▸ hsuspend) hdue hready herror
  | expired hsuspend hdue hready herror =>
    cases h' with
    | kept hthread' _ => exact .expired hsuspend hdue (hthread' ▸ hready) (hthread' ▸ herror)
    | expired hsuspend' => cases hready.symm.trans hsuspend'

section Waits

variable {β : Type} {wait : Tid → Option (Wait β)}

theorem rings_expire (h : WaitTimer.Inv k wait) (hdue : Due k.threadTimer u)
    (hk : k.expire u = some k') : Rings t k k' ∧ k'.threadTimer.rtTick = k.threadTimer.rtTick := by
  obtain ⟨-, htimers⟩ := expire_threadTimer (h.timers.oneShot u) hk
  have hwakes := h.wf.wakes_expire hk
  refine ⟨?_, by rw [htimers]; rfl⟩
  rcases eq_or_ne t u with rfl | hne
  · refine .expired hwakes.suspended hdue ?_ ?_
    all_goals rw [hwakes.thread_same]
  · refine .kept (hwakes.thread_of_ne hne) ?_
    rw [htimers, TimerRun.stopped_of_ne hne]

theorem rings_rtTimerCheckLoop {fuel : Nat} (h : WaitTimer.Inv k wait)
    (hk : WaitTimer.rtTimerCheckLoop fuel k.threadTimer.rtTick k = some k') :
    Rings t k k' ∧ k'.threadTimer.rtTick = k.threadTimer.rtTick := by
  induction fuel generalizing k with
  | zero => cases hk
  | succ fuel ih =>
    rw [WaitTimer.rtTimerCheckLoop] at hk
    split at hk
    · cases hk
      exact ⟨.kept rfl rfl, rfl⟩
    next u rest hlist =>
      split at hk
      next hdue =>
        obtain ⟨k1, hexpire, hk⟩ := bind_eq_some_iff.mp hk
        obtain ⟨hfirst, htick⟩ := rings_expire (t := t) h hdue hexpire
        obtain ⟨hrest, htick'⟩ := ih (h.expired (by simp [hlist]) hexpire) hk
        exact ⟨hfirst.trans hrest htick, htick'.trans htick⟩
      · cases hk
        exact ⟨.kept rfl rfl, rfl⟩

end Waits

/-- The expiry of one timer. -/
theorem OnTime.expire {wait : Tid → Option (Wait Call)} (h : OnTime k.threadTimer now)
    (hw : WaitTimer.Inv k wait) (hk : k.expire t = some k') : OnTime k'.threadTimer now := by
  obtain ⟨-, htimers⟩ := expire_threadTimer (hw.timers.oneShot t) hk
  obtain ⟨g, hnow, hinv⟩ := h
  exact ⟨g, hnow, by rw [htimers]; exact hinv.stopped t⟩

/-- A linked timer that is due has reached its deadline. -/
theorem Due.le {timers : Timers Tid} {d : Nat} (h : Due timers t)
    (hclock : timers.rtTick = now % size32)
    (htick : (timers.timer t).timeoutTick = d % size32) (hhi : d < now + rtTickMax / 2) :
    d ≤ now := by
  by_contra hlt
  rw [Due, hclock, htick, sub32_mod_of_lt (by omega) (by unfold rtTickMax size32 at *; omega)] at h
  unfold rtTickMax size32 at *
  omega

end RtThread.IpcClock
