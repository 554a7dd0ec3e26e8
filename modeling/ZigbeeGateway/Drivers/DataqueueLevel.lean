-- SUMMARY: The interrupt level of the data queue calls.
import ZigbeeGateway.Drivers.DataqueueWait

/-!
# Interrupt levels of the data queue calls

Every call disables the interrupts, keeps the level it found in the local variable `level`, and gives that
level back before it waits or returns. A context switch saves the level of a thread with its context, so
every thread has a level of its own.

One path does not give the level back: a pop that reaches the low-water mark while `waiting_lwm` is set, and
finds no suspended pusher. The flag outlives the push that set it when that push failed or timed out.
-/

namespace RtThread.Dataqueue

open Run Function
open Option (bind_eq_some_iff ite_none_right_eq_some map_eq_some_iff)

/-! ## Levels -/

inductive Level where
  | enabled
  | disabled
  deriving DecidableEq, Repr

structure Irq where
  /-- The level that a thread runs with. -/
  level : Tid → Level
  /-- The local variable `level` of its call. -/
  saved : Tid → Level
  /-- The level with which the thread entered its last call. -/
  entered : Tid → Level

namespace Irq

/-- `level = rt_hw_interrupt_disable()`. -/
def rtHwInterruptDisable (i : Irq) (t : Tid) : Irq :=
  { i with
    saved := update i.saved t (i.level t)
    level := update i.level t .disabled }

/-- `rt_hw_interrupt_enable(level)`. -/
def rtHwInterruptEnable (i : Irq) (t : Tid) : Irq :=
  { i with level := update i.level t (i.saved t) }

def enter (i : Irq) (t : Tid) : Irq := { i with entered := update i.entered t (i.level t) }

/-- The end of a critical section: a call that waits enables the interrupts before `rt_schedule`. -/
def leave (i : Irq) (t : Tid) : Option Exit → Irq
  | none => i.rtHwInterruptEnable t
  | some exit => if exit.enabled then i.rtHwInterruptEnable t else i

end Irq

/-- The events of the queue, a call of `rt_data_queue_peak`, and a thread that changes its own level
between two calls. -/
inductive LevelEvent where
  | queue (e : Event)
  | peak (t : Tid)
  | setLevel (t : Tid) (l : Level)
  deriving DecidableEq, Repr

structure LevelSys where
  sys : Sys
  irq : Irq

/-- How the section that a step runs ends. -/
def Sys.exit (s : Sys) : Event → Option (Option Exit)
  | .call t c => (c.section s.kernel s.queue t).map fun r => r.2.2
  | .resume t =>
    match s.blocked t with
    | some c =>
      match exitOnError s.kernel t with
      | some exit => some (some exit)
      | none => (c.section s.kernel s.queue t).map fun r => r.2.2
    | none => none
  | .expire _ => none

def stepLevel (s : LevelSys) : LevelEvent → Option LevelSys
  | .queue (.call t c) => do
    let sys ← step s.sys (.call t c)
    let exit ← s.sys.exit (.call t c)
    return ⟨sys, ((s.irq.enter t).rtHwInterruptDisable t).leave t exit⟩
  | .queue (.resume t) => do
    let sys ← step s.sys (.resume t)
    let exit ← s.sys.exit (.resume t)
    return ⟨sys, (s.irq.rtHwInterruptDisable t).leave t exit⟩
  | .queue (.expire t) => (step s.sys (.expire t)).map fun sys => ⟨sys, s.irq⟩
  | .peak t =>
    if (s.sys.kernel.thread t).stat = .ready ∧ s.sys.blocked t = none then
      some { s with irq := ((s.irq.enter t).rtHwInterruptDisable t).rtHwInterruptEnable t }
    else
      none
  | .setLevel t l =>
    if s.sys.blocked t = none then
      some { s with irq := { s.irq with level := update s.irq.level t l } }
    else
      none

/-- The step runs the last section of a call of thread `t`. -/
def Returns (s' : LevelSys) (t : Tid) : LevelEvent → Prop
  | .queue (.call u _) | .queue (.resume u) | .peak u => u = t ∧ s'.sys.blocked t = none
  | .queue (.expire _) | .setLevel _ _ => False

/-- The step runs the section of a pop that takes an item, reaches the low-water mark that a push has
asked for, and finds no suspended pusher. -/
def StaleLwm (s : LevelSys) : LevelEvent → Prop
  | .queue e => s.sys.EntersPop e ∧ s.sys.queue.getIndex ≠ s.sys.queue.putIndex ∧
      s.sys.queue.ReachesLwm ∧ s.sys.pushers = []
  | .peak _ | .setLevel _ _ => False

/-! ## The sections -/

/-- A section that ends its call and does not give the level back. -/
def Unrestored (x : Option Exit) : Prop := ∃ exit, x = some exit ∧ exit.enabled = false

@[simp] theorem not_unrestored_none : ¬ Unrestored none := by simp [Unrestored]

@[simp] theorem unrestored_some (exit : Exit) : Unrestored (some exit) ↔ exit.enabled = false := by
  simp [Unrestored]

variable {k k' : Kernel} {q q' : Dataqueue} {t : Tid} {x : Option Exit} {item : DataItem} {timeout : Int}
  {c : Call}

theorem section_unrestored_iff (h : c.section k q t = some (k', q', x)) :
    Unrestored x ↔ (∃ timeout, c = .pop timeout) ∧ q.getIndex ≠ q.putIndex ∧ q.ReachesLwm ∧
      k.tlist q.suspendedPushList = [] := by
  cases c with
  | push item timeout => cases rtDataQueuePush_cases h <;> simp
  | pop timeout =>
    cases rtDataQueuePop_cases h with
    | empty hempty | waits hempty => simp [hempty]
    | takes _ hlwm => simp [hlwm]
    | resumes _ _ hlist => simp [hlist]
    | stale hitem hlwm hlist => simp [hitem, hlwm, hlist]

/-! ## Steps -/

/-- The thread leaves its call unless its section ended with a wait. -/
theorem after_blocked_self (s : Sys) (t : Tid) (c : Call) (r : Kernel × Dataqueue × Option Exit) :
    (s.after t c r).blocked t = none ↔ r.2.2 ≠ none := by
  obtain ⟨k, q, _ | exit⟩ := r <;> simp [Sys.after]

namespace Irq

variable (i : Irq) (t : Tid) (x : Option Exit)

/-- What a section does to the level of its thread. -/
theorem leave_level [Decidable (Unrestored x)] : ((i.rtHwInterruptDisable t).leave t x).level t =
    if Unrestored x then .disabled else i.level t := by
  cases x with
  | none => simp [leave, rtHwInterruptEnable, rtHwInterruptDisable]
  | some exit =>
    cases hexit : exit.enabled <;>
      simp [leave, hexit, rtHwInterruptEnable, rtHwInterruptDisable]

variable {t} in
theorem leave_level_of_ne {u : Tid} (hu : u ≠ t) :
    ((i.rtHwInterruptDisable t).leave t x).level u = i.level u := by
  cases x with
  | none => simp [leave, rtHwInterruptEnable, rtHwInterruptDisable]
  | some exit =>
    cases hexit : exit.enabled <;>
      simp [leave, hexit, rtHwInterruptEnable, rtHwInterruptDisable, update_of_ne hu]

theorem leave_entered : ((i.rtHwInterruptDisable t).leave t x).entered = i.entered := by
  cases x with
  | none => rfl
  | some exit =>
    rw [leave]
    split <;> rfl

end Irq

variable {s s' : LevelSys} {e : LevelEvent}

/-- The step runs a section of a call of thread `t` that ends with `x`. A section that is not the first
one of its call starts with the level that the thread waited with. -/
structure Runs (s : LevelSys) (e : LevelEvent) (s' : LevelSys) (t : Tid) (x : Option Exit) : Prop where
  irq : ∃ i, s'.irq = (i.rtHwInterruptDisable t).leave t x ∧
    (i = s.irq.enter t ∨ i = s.irq ∧ s.sys.blocked t ≠ none)
  returns : s'.sys.blocked t = none ↔ x ≠ none
  other : ∀ u, u ≠ t → s'.sys.blocked u = s.sys.blocked u
  stale : Unrestored x ↔ StaleLwm s e

theorem runs_call (h : stepLevel s (.queue (.call t c)) = some s') :
    ∃ x, Runs s (.queue (.call t c)) s' t x := by
  obtain ⟨sys, hsys, h⟩ := bind_eq_some_iff.mp h
  simp only [step, ite_none_right_eq_some, map_eq_some_iff] at hsys
  obtain ⟨-, ⟨k, q, x⟩, hr, rfl⟩ := hsys
  rw [Sys.exit, hr] at h
  cases h
  refine ⟨x, ⟨_, rfl, .inl rfl⟩, after_blocked_self .., fun u hu => after_blocked _ c _ hu, ?_⟩
  exact section_unrestored_iff hr

theorem runs_resume (h : stepLevel s (.queue (.resume t)) = some s') :
    ∃ x, Runs s (.queue (.resume t)) s' t x := by
  obtain ⟨sys, hsys, h⟩ := bind_eq_some_iff.mp h
  cases hc : s.sys.blocked t with
  | none => simp [step, hc] at hsys
  | some c =>
    simp only [step, hc, ite_none_right_eq_some] at hsys
    obtain ⟨-, hsys⟩ := hsys
    simp only [Sys.exit, hc] at h
    unfold exitOnError at hsys h
    by_cases herr : (s.sys.kernel.thread t).error ≠ .eok
    · -- the wait ended with an error, and the call leaves through `__exit`
      obtain ⟨exit, hexit⟩ : ∃ x : Exit, x = ⟨(s.sys.kernel.thread t).error, none, none, true⟩ :=
        ⟨_, rfl⟩
      rw [if_pos herr, ← hexit] at hsys h
      obtain rfl := Option.some.inj hsys
      obtain rfl := Option.some.inj h
      refine ⟨some exit, ⟨_, rfl, .inr ⟨rfl, by simp [hc]⟩⟩,
        after_blocked_self s.sys t c (s.sys.kernel, s.sys.queue, some exit), fun u hu => ?_, ?_⟩
      · exact after_blocked s.sys c (s.sys.kernel, s.sys.queue, some exit) hu
      · simp [StaleLwm, Sys.EntersPop, herr, hexit]
    · rw [if_neg herr] at hsys h
      obtain ⟨⟨k, q, x⟩, hr, rfl⟩ := map_eq_some_iff.mp hsys
      simp only [hr] at h
      cases h
      refine ⟨x, ⟨_, rfl, .inr ⟨rfl, by simp [hc]⟩⟩, after_blocked_self .., fun u hu =>
        after_blocked _ c _ hu, ?_⟩
      rw [section_unrestored_iff hr, StaleLwm, Sys.EntersPop, hc]
      simp [not_not.mp herr, Sys.pushers]

theorem runs_peak (h : stepLevel s (.peak t) = some s') : ∃ x, Runs s (.peak t) s' t x := by
  simp only [stepLevel, ite_none_right_eq_some] at h
  obtain ⟨⟨-, hfree⟩, ⟨⟩⟩ := h
  exact ⟨some ⟨.eok, none, none, true⟩, ⟨_, rfl, .inl rfl⟩, by simp [hfree], fun u _ => rfl,
    by simp [StaleLwm]⟩

/-- A thread that waits in a call has the level with which it entered the call. -/
def Kept (s : LevelSys) : Prop :=
  ∀ t, s.sys.blocked t ≠ none → s.irq.level t = s.irq.entered t

/-- The level and the level at the entry after a section. -/
theorem Runs.level [Decidable (Unrestored x)] (h : Runs s e s' t x) (hkept : Kept s) :
    s'.irq.level t = if Unrestored x then .disabled else s'.irq.entered t := by
  obtain ⟨i, hirq, hi⟩ := h.irq
  have hlevel : i.level t = i.entered t := by
    rcases hi with rfl | ⟨rfl, hblocked⟩
    · simp [Irq.enter]
    · exact hkept t hblocked
  rw [hirq, Irq.leave_level, Irq.leave_entered, hlevel]

theorem Runs.kept (h : Runs s e s' t x) (hkept : Kept s) : Kept s' := by
  intro u hu
  rcases eq_or_ne u t with rfl | hne
  · have hx : x = none := by
      by_contra hx
      exact hu (h.returns.mpr hx)
    classical
    rw [h.level hkept, if_neg (by simp [hx])]
  · obtain ⟨i, hirq, hi⟩ := h.irq
    have hsame : i.level u = s.irq.level u ∧ i.entered u = s.irq.entered u := by
      rcases hi with rfl | ⟨rfl, -⟩
      · exact ⟨rfl, update_of_ne hne ..⟩
      · exact ⟨rfl, rfl⟩
    rw [h.other u hne] at hu
    rw [hirq, Irq.leave_level_of_ne _ _ hne, Irq.leave_entered, hsame.1, hsame.2]
    exact hkept u hu

theorem stepLevel_kept (hkept : Kept s) (h : stepLevel s e = some s') : Kept s' := by
  match e with
  | .queue (.call t c) => exact (runs_call h).elim fun x hx => hx.kept hkept
  | .queue (.resume t) => exact (runs_resume h).elim fun x hx => hx.kept hkept
  | .peak t => exact (runs_peak h).elim fun x hx => hx.kept hkept
  | .queue (.expire t) =>
    obtain ⟨sys, hsys, rfl⟩ := map_eq_some_iff.mp h
    obtain ⟨k, -, rfl⟩ := map_eq_some_iff.mp hsys
    exact hkept
  | .setLevel t l =>
    simp only [stepLevel, ite_none_right_eq_some] at h
    obtain ⟨hfree, ⟨⟩⟩ := h
    intro u hu
    have hne : u ≠ t := by
      rintro rfl
      exact hu hfree
    change update s.irq.level t l u = _
    rw [update_of_ne hne]
    exact hkept u hu

/-! ## Calls that return -/

/-- Of a queue and threads in any state, whatever calls were made before: a call that returns gives back
the level it was entered with, unless that was the enabled one and the call is a pop that reaches the
low-water mark a push has asked for while no pusher is suspended. -/
theorem level_restored_iff {s0 : LevelSys} {es : List LevelEvent}
    (hfree : ∀ t, s0.sys.blocked t = none) (hrun : run stepLevel s0 es = some s)
    (hstep : stepLevel s e = some s') (hreturns : Returns s' t e) :
    s'.irq.level t = s'.irq.entered t ↔ s'.irq.entered t = .disabled ∨ ¬ StaleLwm s e := by
  have hkept : Kept s := run_invariant (fun _ _ _ => stepLevel_kept)
    (fun u hu => absurd (hfree u) hu) hrun
  have hrun : ∃ x, Runs s e s' t x := by
    match e, hreturns with
    | .queue (.call _ _), ⟨rfl, _⟩ => exact runs_call hstep
    | .queue (.resume _), ⟨rfl, _⟩ => exact runs_resume hstep
    | .peak _, ⟨rfl, _⟩ => exact runs_peak hstep
  obtain ⟨x, hx⟩ := hrun
  classical
  rw [hx.level hkept, ← hx.stale]
  split
  next hbad => simp [hbad, eq_comm]
  next hgood => simp [hgood]

/-- A queue of one slot and a thread, with the interrupts enabled. -/
def oneSlotEnabled : LevelSys where
  sys := oneThread (oneSlot ⟨0, 0⟩ 0 0) [] []
  irq := ⟨fun _ => .enabled, fun _ => .enabled, fun _ => .enabled⟩

/-- A push and a pop that nobody waits for. -/
theorem level_restored_pop :
    ∃ s s', run stepLevel oneSlotEnabled [.queue (.call 0 (.push ⟨1, 1⟩ 0))] = some s ∧
      stepLevel s (.queue (.call 0 (.pop 0))) = some s' ∧ s'.irq.level 0 = s'.irq.entered 0 := by
  obtain ⟨s, hrun, s', hstep, hlwm, hreturns⟩ :
      ∃ s ∈ run stepLevel oneSlotEnabled [.queue (.call 0 (.push ⟨1, 1⟩ 0))],
        ∃ s' ∈ stepLevel s (.queue (.call 0 (.pop 0))), s.sys.queue.waitingLwm = false ∧ s'.sys.blocked 0 = none := by
    decide
  refine ⟨s, s', hrun, hstep, (level_restored_iff (fun _ => rfl) hrun hstep ⟨rfl, hreturns⟩).mpr (.inr ?_)⟩
  rintro ⟨-, -, ⟨hset, -⟩, -⟩
  rw [hlwm] at hset
  cases hset

/-- The queue is filled and a second push fails at once, which leaves `waiting_lwm` set. The pop takes the
item and returns with the interrupts disabled. -/
theorem pop_leaves_disabled :
    ∃ s s', run stepLevel oneSlotEnabled
        [.queue (.call 0 (.push ⟨1, 1⟩ 0)), .queue (.call 0 (.push ⟨2, 2⟩ 0))] = some s ∧
      stepLevel s (.queue (.call 0 (.pop 0))) = some s' ∧
      Returns s' 0 (.queue (.call 0 (.pop 0))) ∧ s'.sys.popped = [⟨1, 1⟩] ∧
      s'.irq.entered 0 = .enabled ∧ s'.irq.level 0 = .disabled :=
  ⟨_, _, rfl, rfl, ⟨rfl, rfl⟩, by decide, by decide, by decide⟩

end RtThread.Dataqueue
