-- SUMMARY: Runs of the scheduler: the ready queue and the choice.
import ZigbeeGateway.Lib.Run
import ZigbeeGateway.Kernel.Ipc

/-!
# Runs of the scheduler

One step is one call of a function of `thread.c` or `scheduler.c`, or the expiry of a
thread's timer. `effect` is the part of the call up to its `rt_schedule`, if it makes
one, and `step` is the whole call. The calls without a thread argument are made by the
running thread `rt_current_thread`.
-/

namespace RtThread.Scheduler

open Run Function
open Option (bind_eq_some_iff map_eq_some_iff)

inductive Event where
  | startup (t : Tid)
  | suspend (t : Tid)
  | resume (t : Tid)
  | yield
  | sleep (tick : Nat)
  | sleepReturn
  | timeout (t : Tid)
  | changePriority (t : Tid) (arg : Fin 32)
  | exit
  | schedule
  | schedulerStart
  | enterCritical
  | exitCritical
  deriving DecidableEq, Repr

/-- The state that a call reaches before it calls `rt_schedule`, and whether it does. -/
def effect (k : Kernel) : Event → Option (Kernel × Bool)
  | .startup t => k.rtThreadStartup t
  | .suspend t => some ((k.rtThreadSuspend t).1, false)
  | .resume t => some ((k.rtThreadResume t).1, false)
  | .yield => k.rtCurrentThread.map fun t => k.rtThreadYield t
  | .sleep tick => do
    let t ← k.rtCurrentThread
    let k ← k.rtThreadSleep t tick
    return (k, true)
  | .sleepReturn => k.rtCurrentThread.map fun t => (k.rtThreadSleepReturn t, false)
  | .timeout t => do
    let k ← k.expire t
    return (k, true)
  | .changePriority t arg => some (k.rtThreadChangePriority t arg, false)
  | .exit => k.rtCurrentThread.map fun t => (k.rtThreadExit t, true)
  | .schedule => some (k, true)
  | .schedulerStart => do
    let k ← k.rtSystemSchedulerStart
    return (k, false)
  | .enterCritical => some (k.rtEnterCritical, false)
  | .exitCritical => some k.rtExitCritical

def step (k : Kernel) (e : Event) : Option Kernel := do
  let (k, reschedule) ← effect k e
  if reschedule then k.rtSchedule else some k

/-- The state after `rt_system_scheduler_init` and `rt_thread_init` of every thread. -/
structure Initial (k : Kernel) : Prop where
  tlist : ∀ hd, k.tlist hd = []
  group : k.rtThreadReadyPriorityGroup = 0
  current : k.rtCurrentThread = none
  stat : ∀ t, (k.thread t).stat = .init
  currentPriority : ∀ t, (k.thread t).currentPriority < 32
  initPriority : ∀ t, (k.thread t).initPriority < 32

structure Inv (k : Kernel) : Prop where
  wf : k.WF
  current : ∀ t ∈ k.rtCurrentThread, (k.thread t).MaskOk

variable {k : Kernel} {p : Nat} {t : Tid}

theorem Initial.inv (h : Initial k) : Inv k := by
  constructor
  · constructor
    · constructor <;> simp [h.tlist]
    · simp
    · simp [h.tlist]
    · simp [h.stat]
    · simp [h.group, h.tlist]
    · intro t _
      exact ⟨by simp [h.stat], h.currentPriority t, h.initPriority t⟩
  · simp [h.current]

/-! ## What the calls do to the threads

Only the scheduler changes the running thread. Every other call changes one thread object at a
time, and a started thread keeps the mask of its priority. -/

/-- What no call changes in a thread that goes on. -/
structure SameLife (th th' : Thread) : Prop where
  closed : th'.stat = .close ↔ th.stat = .close
  isSystemObject : th'.isSystemObject = th.isSystemObject
  cleanup : th'.cleanup = th.cleanup
  mask : th.MaskOk → th'.MaskOk

theorem SameLife.refl (th : Thread) : SameLife th th := ⟨.rfl, rfl, rfl, id⟩

theorem SameLife.trans {th th' th'' : Thread} (h : SameLife th th') (h' : SameLife th' th'') :
    SameLife th th'' :=
  ⟨h'.closed.trans h.closed, h'.isSystemObject.trans h.isSystemObject, h'.cleanup.trans h.cleanup,
    h'.mask ∘ h.mask⟩

structure Edits (k k' : Kernel) (t : Tid) (th : Thread) : Prop where
  current : k'.rtCurrentThread = k.rtCurrentThread
  thread : k'.thread = update k.thread t th
  life : SameLife (k.thread t) th

/-- The node of a thread that is edited stays where it is, or the thread is not closed and its
node is taken from its list and may be put into another one. -/
inductive Turn (k k' : Kernel) : Prop
  | stay {t : Tid} {th : Thread} (h : Edits k k' t th) (htlist : k'.tlist = k.tlist)
  | leave {t : Tid} {th : Thread} (h : Edits k k' t th) (hlive : (k.thread t).stat ≠ .close)
      (htlist : k'.tlist = Lanes.remove k.tlist t)
  | move {t : Tid} {th : Thread} (hd : ListHead) {l : List Tid} (h : Edits k k' t th)
      (hlive : (k.thread t).stat ≠ .close) (hhd : hd ≠ .defunct)
      (hl : l.Perm (t :: Lanes.remove k.tlist t hd))
      (htlist : k'.tlist = Lanes.put (Lanes.remove k.tlist t) hd l)

abbrev Turns : Kernel → Kernel → Prop := Relation.ReflTransGen Turn

variable {k' : Kernel}

theorem Edits.same {th : Thread} (h : Edits k k' t th) (u : Tid) :
    SameLife (k.thread u) (k'.thread u) := by
  rw [h.thread]
  rcases eq_or_ne u t with rfl | hne
  · rw [update_self]
    exact h.life
  · rw [update_of_ne hne]
    exact .refl _

namespace Turn

theorem edits (h : Turn k k') : ∃ t th, Edits k k' t th := by
  cases h <;> exact ⟨_, _, ‹_›⟩

/-- Timers and the lock of the scheduler do not matter. -/
theorem congr {m : Kernel} (h : Turn k m) (hcur : k'.rtCurrentThread = m.rtCurrentThread)
    (hthread : k'.thread = m.thread) (htlist : k'.tlist = m.tlist) : Turn k k' := by
  cases h with
  | stay h hl => exact .stay ⟨hcur.trans h.current, hthread.trans h.thread, h.life⟩ (htlist.trans hl)
  | leave h hlive hl =>
    exact .leave ⟨hcur.trans h.current, hthread.trans h.thread, h.life⟩ hlive (htlist.trans hl)
  | move hd h hlive hhd hperm hl =>
    exact .move hd ⟨hcur.trans h.current, hthread.trans h.thread, h.life⟩ hlive hhd hperm (htlist.trans hl)

theorem setThread {th : Thread} (hth : SameLife (k.thread t) th) : Turn k (k.setThread t th) :=
  .stay ⟨rfl, rfl, hth⟩ rfl

theorem refl (k : Kernel) : Turn k k :=
  .stay (t := 0) ⟨rfl, (update_eq_self 0 k.thread).symm, .refl _⟩ rfl

/-- A thread that is in no list any more becomes the last one of its ready list. -/
theorem insert {k1 : Kernel} {th : Thread} (hcur : k1.rtCurrentThread = k.rtCurrentThread)
    (hthread : k1.thread = update k.thread t th) (htlist : k1.tlist = Lanes.remove k.tlist t)
    (hlive : (k.thread t).stat ≠ .close) (hlife : SameLife (k.thread t) { th with stat := .ready }) :
    Turn k (k1.rtScheduleInsertThread t) := by
  have hself : k1.thread t = th := by simp [hthread]
  refine .move (.priorityTable th.currentPriority) ⟨hcur, ?_, hlife⟩ hlive nofun
    (List.perm_append_singleton t _) ?_
  · change update k1.thread t { k1.thread t with stat := .ready } = _
    rw [hself, hthread, update_idem]
  · rw [Kernel.rtScheduleInsertThread_tlist, hself, htlist]

theorem suspend (k : Kernel) (t : Tid) : Turn k (k.rtThreadSuspend t).1 := by
  by_cases hstat : (k.thread t).stat = .ready
  · refine .leave ⟨?_, Kernel.rtThreadSuspend_thread hstat, by simp [hstat], rfl, rfl, id⟩
      (by simp [hstat]) ?_
    · rw [Kernel.rtThreadSuspend_of_ready hstat]
      exact k.rtScheduleRemoveThread_current t
    · rw [Kernel.rtThreadSuspend_of_ready hstat]
      exact k.rtScheduleRemoveThread_tlist t
  · rw [Kernel.rtThreadSuspend, if_pos hstat]
    exact refl k

theorem resume (k : Kernel) (t : Tid) : Turn k (k.rtThreadResume t).1 := by
  unfold Kernel.rtThreadResume
  split
  · exact refl k
  next hsuspend =>
    have hstat := not_not.mp hsuspend
    exact insert rfl (update_eq_self t k.thread).symm rfl (by simp [hstat])
      ⟨by simp [hstat], rfl, rfl, id⟩

theorem yield (k : Kernel) (t : Tid) : Turn k (k.rtThreadYield t).1 := by
  unfold Kernel.rtThreadYield
  dsimp only
  split
  next hif =>
    exact .move (.priorityTable _) ⟨rfl, (update_eq_self t k.thread).symm, .refl _⟩
      (by simp [hif.1]) nofun (List.perm_append_singleton t _) rfl
  · exact refl k

theorem sleep {tick : Nat} (hk : k.rtThreadSleep t tick = some k') : Turn k k' := by
  obtain ⟨timers, -, ⟨⟩⟩ := bind_eq_some_iff.mp hk
  exact (suspend k t).congr rfl rfl rfl

theorem sleepReturn (k : Kernel) (t : Tid) : Turn k (k.rtThreadSleepReturn t) := by
  unfold Kernel.rtThreadSleepReturn
  split
  · exact setThread ⟨.rfl, rfl, rfl, id⟩
  · exact refl k

theorem expire (hk : k.expire t = some k') : Turn k k' := by
  obtain ⟨k1, timers, hto, -, rfl⟩ := Kernel.expire_eq_some hk
  refine congr (m := k1) ?_ rfl rfl rfl
  obtain ⟨hstat, ⟨⟩⟩ := rtAssert_bind_eq_some.mp hto
  exact insert rfl rfl rfl (by simp [hstat]) ⟨by simp [hstat], rfl, rfl, id⟩

theorem changePriority (k : Kernel) (t : Tid) (arg : Nat) :
    Turn k (k.rtThreadChangePriority t arg) := by
  unfold Kernel.rtThreadChangePriority
  split
  next hstat =>
    dsimp only
    rw [k.rtScheduleRemoveThread_thread t]
    exact insert (k.rtScheduleRemoveThread_current t)
      (congrArg (update · t _) (k.rtScheduleRemoveThread_thread t)) (k.rtScheduleRemoveThread_tlist t)
      (by simp [hstat]) ⟨by simp [hstat], rfl, rfl, fun _ => rfl⟩
  · exact setThread ⟨.rfl, rfl, rfl, fun _ => rfl⟩

end Turn

theorem Turns.startup {b : Bool} (hk : k.rtThreadStartup t = some (k', b)) : Turns k k' := by
  obtain ⟨hstat, ⟨⟩⟩ := rtAssert_bind_eq_some.mp hk
  refine .tail (.single ?_) (.resume _ t)
  simp only [Kernel.setThread_setThread]
  exact .setThread ⟨by simp [hstat], by simp, by simp, fun _ => by simp [Thread.MaskOk]⟩

/-- The running thread stays, and so do the masks. -/
structure Keeps (k k' : Kernel) : Prop where
  current : k'.rtCurrentThread = k.rtCurrentThread
  mask : ∀ t, (k.thread t).MaskOk → (k'.thread t).MaskOk

namespace Keeps

theorem turns (h : Turns k k') : Keeps k k' := by
  induction h with
  | refl => exact ⟨rfl, fun _ => id⟩
  | tail _ hturn ih =>
    obtain ⟨t, th, hedits⟩ := hturn.edits
    exact ⟨hedits.current.trans ih.current, fun u hu => (hedits.same u).mask (ih.mask u hu)⟩

theorem of_thread (hcur : k'.rtCurrentThread = k.rtCurrentThread) (hth : k'.thread = k.thread) :
    Keeps k k' :=
  ⟨hcur, fun t ht => by rwa [hth]⟩

theorem of_update {th : Thread} (hcur : k'.rtCurrentThread = k.rtCurrentThread)
    (hthread : k'.thread = update k.thread t th) (hmask : (k.thread t).MaskOk → th.MaskOk) :
    Keeps k k' := by
  refine ⟨hcur, fun u hu => ?_⟩
  rw [hthread]
  rcases eq_or_ne u t with rfl | hne
  · rw [update_self]
    exact hmask hu
  · rwa [update_of_ne hne]

/-- A thread is removed from the ready queue and closed. -/
theorem close (hcur : k'.rtCurrentThread = (k.rtScheduleRemoveThread t).rtCurrentThread)
    (hthread : k'.thread = update (k.rtScheduleRemoveThread t).thread t
      { (k.rtScheduleRemoveThread t).thread t with stat := .close }) : Keeps k k' := by
  rw [k.rtScheduleRemoveThread_thread t] at hthread
  exact of_update (hcur.trans (k.rtScheduleRemoveThread_current t)) hthread id

theorem exit (k : Kernel) (t : Tid) : Keeps k (k.rtThreadExit t) := by
  unfold Kernel.rtThreadExit
  dsimp only
  split <;> exact close rfl rfl

end Keeps

theorem Inv.of_keeps (h : Inv k) (hwf : k'.WF) (hk : Keeps k k') : Inv k' := by
  refine ⟨hwf, fun t ht => hk.mask t (h.current t ?_)⟩
  rwa [← hk.current]

/-! ## rt_schedule -/

/-- Thread `t` is the first of the non-empty ready list with the smallest index. -/
def Highest (k : Kernel) (p : Nat) (t : Tid) : Prop :=
  (∃ rest, k.tlist (.priorityTable p) = t :: rest) ∧ ∀ q < p, k.tlist (.priorityTable q) = []

theorem toThread_eq_some (hk : k.toThread = some (p, t)) :
    ∃ rest, k.tlist (.priorityTable p) = t :: rest := by
  unfold Kernel.toThread at hk
  split at hk
  · exact absurd hk (by simp)
  · split at hk
    · exact absurd hk (by simp)
    next rest hlist =>
      obtain ⟨rfl, rfl⟩ := by simpa using hk
      exact ⟨rest, hlist⟩

/-- With a ready thread, the lowest bit of the group leads to the highest priority list. -/
theorem toThread_of_ready (h : k.WF) {u : Tid} (hu : (k.thread u).stat = .ready) :
    ∃ p t, p < 32 ∧ k.toThread = some (p, t) ∧ Highest k p t := by
  have hmem := h.ready (by simp) hu
  have hbit := (h.group _ (h.currentPriority u)).mpr (List.ne_nil_of_mem hmem)
  have hne : k.rtThreadReadyPriorityGroup ≠ 0 := by
    intro hzero
    simp [hzero] at hbit
  obtain ⟨p, hffs, hlow⟩ := rtFfs_spec hne
  obtain ⟨t, rest, hlist⟩ := List.exists_cons_of_ne_nil ((h.group p hlow.lt).mp hlow.1)
  refine ⟨p, t, hlow.lt, ?_, ⟨rest, hlist⟩, fun q hq => ?_⟩
  · simp [Kernel.toThread, hffs, hlist]
  · by_contra hq'
    have hset := (h.group q (hq.trans hlow.lt)).mpr hq'
    simp [hlow.2 q hq] at hset

theorem rtSchedule_current (hlock : k.rtSchedulerLockNest = 0) (hto : k.toThread = some (p, t)) :
    ∃ k', k.rtSchedule = some k' ∧ k'.rtCurrentThread = some t := by
  rw [Kernel.rtSchedule, if_pos hlock, hto]
  by_cases hcur : some t = k.rtCurrentThread <;> simp [hcur]

theorem Inv.current_toThread (h : Inv k)
    (hto : k.toThread = some (p, t)) (hthread : k'.thread = k.thread) (htlist : k'.tlist = k.tlist)
    (hgroup : k'.rtThreadReadyPriorityGroup = k.rtThreadReadyPriorityGroup)
    (hcur : k'.rtCurrentThread = some t) : Inv k' := by
  refine ⟨h.wf.congr hthread htlist hgroup, fun u hu => ?_⟩
  obtain rfl : t = u := by simpa [hcur] using hu
  obtain ⟨rest, hlist⟩ := toThread_eq_some hto
  have hready : (k.thread t).stat = .ready :=
    (h.wf.linked (h := .priorityTable p) (by simp [hlist])).1
  rw [hthread]
  exact h.wf.mask (.inl hready)

/-! ## Steps and runs -/

/-- What a call does up to its `rt_schedule`, unless it ends or selects a thread. -/
theorem effect_turns {e : Event} {b : Bool} (hexit : e ≠ .exit) (hstart : e ≠ .schedulerStart)
    (hk : effect k e = some (k', b)) : Turns k k' ∧ (k.WF → k'.WF) := by
  cases e with
  | startup t => exact ⟨.startup hk, fun h => h.rtThreadStartup hk⟩
  | suspend t =>
    cases hk
    exact ⟨.single (.suspend k t), fun h => h.rtThreadSuspend t⟩
  | resume t =>
    cases hk
    exact ⟨.single (.resume k t), fun h => h.rtThreadResume t⟩
  | yield =>
    obtain ⟨t, -, hy⟩ := map_eq_some_iff.mp hk
    obtain rfl : (k.rtThreadYield t).1 = k' := by rw [hy]
    exact ⟨.single (.yield k t), fun h => h.rtThreadYield t⟩
  | sleep tick =>
    obtain ⟨t, -, hk⟩ := bind_eq_some_iff.mp hk
    obtain ⟨k1, hsleep, ⟨⟩⟩ := bind_eq_some_iff.mp hk
    exact ⟨.single (.sleep hsleep), fun h => h.rtThreadSleep hsleep⟩
  | sleepReturn =>
    obtain ⟨t, -, ⟨⟩⟩ := map_eq_some_iff.mp hk
    exact ⟨.single (.sleepReturn k t), fun h => h.rtThreadSleepReturn t⟩
  | timeout t =>
    obtain ⟨k1, hexp, ⟨⟩⟩ := bind_eq_some_iff.mp hk
    exact ⟨.single (.expire hexp), fun h => h.expire hexp⟩
  | changePriority t arg =>
    cases hk
    exact ⟨.single (.changePriority k t arg), fun h => h.rtThreadChangePriority t arg.isLt⟩
  | exit => exact absurd rfl hexit
  | schedulerStart => exact absurd rfl hstart
  | schedule =>
    cases hk
    exact ⟨.refl, id⟩
  | enterCritical =>
    cases hk
    exact ⟨.single ((Turn.refl k).congr rfl rfl rfl), fun h => h.congr rfl rfl rfl⟩
  | exitCritical =>
    obtain rfl : k.rtExitCritical.1 = k' := by rw [Option.some.inj hk]
    unfold Kernel.rtExitCritical
    dsimp only
    split <;> exact ⟨.single ((Turn.refl k).congr rfl rfl rfl), fun h => h.congr rfl rfl rfl⟩

theorem effect_inv {e : Event} {b : Bool} (h : Inv k) (hk : effect k e = some (k', b)) : Inv k' := by
  by_cases hexit : e = .exit
  · subst hexit
    obtain ⟨t, hcur, ⟨⟩⟩ := map_eq_some_iff.mp hk
    exact h.of_keeps (h.wf.rtThreadExit (h.current t hcur)) (.exit k t)
  by_cases hstart : e = .schedulerStart
  · subst hstart
    obtain ⟨k1, hstart, ⟨⟩⟩ := bind_eq_some_iff.mp hk
    obtain ⟨⟨p, t⟩, hto, ⟨⟩⟩ := bind_eq_some_iff.mp hstart
    exact h.current_toThread hto rfl rfl rfl rfl
  · obtain ⟨hturns, hwf⟩ := effect_turns hexit hstart hk
    exact h.of_keeps (hwf h.wf) (.turns hturns)

theorem rtSchedule_inv (h : Inv k) (hk : k.rtSchedule = some k') : Inv k' := by
  unfold Kernel.rtSchedule at hk
  split at hk
  · obtain ⟨⟨p, t⟩, hto, hk⟩ := bind_eq_some_iff.mp hk
    dsimp only at hk
    split at hk
    · cases hk
      exact h.current_toThread hto rfl rfl rfl rfl
    · cases hk
      exact h
  · cases hk
    exact h

theorem step_inv (k : Kernel) (e : Event) (k' : Kernel) (h : Inv k) (hk : step k e = some k') :
    Inv k' := by
  obtain ⟨⟨k1, b⟩, heff, hk⟩ := bind_eq_some_iff.mp hk
  have h1 := effect_inv h heff
  cases b with
  | false =>
    cases hk
    exact h1
  | true => exact rtSchedule_inv h1 hk

/-- In every run, the bitmap and the ready lists agree with the states and the priorities of
the threads, and whatever call comes next, its `rt_schedule` selects the first thread of
the highest ready priority. -/
theorem readyQueue_exact {k0 k : Kernel} {es : List Event} (hinit : Initial k0)
    (hrun : run step k0 es = some k) :
    (∀ p < 32, k.rtThreadReadyPriorityGroup.getLsbD p = true ↔
      k.tlist (.priorityTable p) ≠ []) ∧
    (∀ p < 32, (k.tlist (.priorityTable p)).Nodup ∧
      ∀ t, t ∈ k.tlist (.priorityTable p) ↔
        (k.thread t).stat = .ready ∧ (k.thread t).currentPriority = p) ∧
    ∀ e k1, effect k e = some (k1, true) → k1.rtSchedulerLockNest = 0 →
      (∃ u, (k1.thread u).stat = .ready) →
      ∃ p t k', p < 32 ∧ Highest k1 p t ∧ step k e = some k' ∧ k'.rtCurrentThread = some t := by
  have hinv : Inv k := run_invariant step_inv hinit.inv hrun
  refine ⟨hinv.wf.group, fun p _ => ⟨hinv.wf.exclusive.nodup _, fun t => ?_⟩, ?_⟩
  · constructor
    · exact hinv.wf.linked
    · rintro ⟨hready, rfl⟩
      exact hinv.wf.ready (by simp) hready
  · rintro e k1 heff hlock ⟨u, hu⟩
    obtain ⟨p, t, hp, hto, hhigh⟩ := toThread_of_ready (effect_inv hinv heff).wf hu
    obtain ⟨k', hk', hcur⟩ := rtSchedule_current hlock hto
    exact ⟨p, t, k', hp, hhigh, by rw [step, heff]; exact hk', hcur⟩

theorem boot_initial (prio : Tid → Fin 32) : Initial (Kernel.boot prio) := by
  constructor
  case currentPriority | initPriority => exact fun t => (prio t).isLt
  all_goals simp [Kernel.boot]

/-- Thread 0 has priority 9 and all others have priority 3; none of them is started. -/
def twoPriorities : Kernel := Kernel.boot fun t => if t = 0 then 9 else 3

/-- Both threads run, the one with priority 3 exits, and the scheduler goes on with thread 0. -/
theorem readyQueue_exact_twoPriorities :
    ∃ k k1 p t k', run step twoPriorities [.startup 0, .startup 1, .schedulerStart] = some k ∧
      k.rtCurrentThread = some 1 ∧ effect k .exit = some (k1, true) ∧ p < 32 ∧ Highest k1 p t ∧
      step k .exit = some k' ∧ k'.rtCurrentThread = some t := by
  obtain ⟨k, hrun⟩ : ∃ k, run step twoPriorities [.startup 0, .startup 1, .schedulerStart] = some k :=
    ⟨_, rfl⟩
  have hcur : k.rtCurrentThread = some 1 := by
    cases hrun
    rfl
  obtain ⟨p, t, k', hp, hhigh, hstep, hnext⟩ :=
    (readyQueue_exact (boot_initial _) hrun).2.2 .exit (k.rtThreadExit 1)
      (by rw [effect, hcur]; rfl) (by cases hrun; rfl) ⟨0, by cases hrun; rfl⟩
  exact ⟨k, _, p, t, k', hrun, hcur, by rw [effect, hcur]; rfl, hp, hhigh, hstep, hnext⟩

end RtThread.Scheduler
