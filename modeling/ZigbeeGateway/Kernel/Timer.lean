-- SUMMARY: The hard timer list of timer.c and the system tick.
import ZigbeeGateway.Lib.Word

/-!
# Timers

The model of `src/timer.c` for `RT_TIMER_SKIP_LIST_LEVEL = 1` and without soft
timers, over an arbitrary type `ι` of timer objects. The intrusive list
`rt_timer_list[0]` is the list of the timers linked in it, in list order:
`rt_list_remove` of a node that is not linked does nothing, like `List.erase`.
The flag bits `RT_TIMER_FLAG_ACTIVATED` and `RT_TIMER_FLAG_PERIODIC` of
`parent.flag` are Boolean fields.
-/

namespace RtThread

open Word

/-- The error numbers of `rtdef.h`. The source returns them negated. -/
inductive Err where
  | eok
  | error
  | etimeout
  | efull
  deriving DecidableEq, Repr

/-- `RT_TICK_MAX`. -/
def rtTickMax : Nat := 0xffffffff

/-- The fields of `struct rt_timer` that decide when it fires. -/
structure Timer where
  activated : Bool
  periodic : Bool
  initTick : Nat
  timeoutTick : Nat
  deriving DecidableEq, Repr

/-- The system tick `rt_tick`, the timer objects and the list of linked timers. -/
structure Timers (ι : Type) where
  rtTick : Nat
  timer : ι → Timer
  timerList : List ι

/-- `RT_ASSERT`: a failed assertion never returns. -/
def rtAssert (p : Prop) [Decidable p] : Option Unit := if p then some () else none

@[simp] theorem rtAssert_bind_eq_some {α : Type} {p : Prop} [Decidable p] {f : Unit → Option α}
    {a : α} : (rtAssert p >>= f) = some a ↔ p ∧ f () = some a := by
  by_cases hp : p <;> simp [rtAssert, hp]

namespace Timers

variable {ι : Type} [DecidableEq ι]

/-- Overwrite one timer object. -/
def setTimer (s : Timers ι) (i : ι) (t : Timer) : Timers ι :=
  { s with timer := Function.update s.timer i t }

/-- `_rt_timer_remove`. -/
def rtTimerRemove (s : Timers ι) (i : ι) : Timers ι :=
  { s with timerList := s.timerList.erase i }

/-- The search loop of `rt_timer_start` and the insertion after `row_head[0]`. The loop
passes timers with an equal or an earlier timeout, compared in wrapped ticks. -/
def insertRow (timer : ι → Timer) (i : ι) : List ι → List ι
  | [] => [i]
  | t :: rest =>
    if sub32 (timer t).timeoutTick (timer i).timeoutTick = 0 then
      t :: insertRow timer i rest
    else if sub32 (timer t).timeoutTick (timer i).timeoutTick < rtTickMax / 2 then
      i :: t :: rest
    else
      t :: insertRow timer i rest

/-- `rt_timer_start`. -/
def rtTimerStart (s : Timers ι) (i : ι) : Option (Timers ι × Err) :=
  if (s.timer i).activated then
    some (s, .error)
  else do
    -- the max timeout tick shall not great than RT_TICK_MAX/2
    rtAssert ((s.timer i).initTick < rtTickMax / 2)
    let s := s.setTimer i
      { s.timer i with timeoutTick := add32 s.rtTick (s.timer i).initTick }
    let s := { s with timerList := insertRow s.timer i s.timerList }
    let s := s.setTimer i { s.timer i with activated := true }
    return (s, .eok)

/-- `rt_timer_stop`. -/
def rtTimerStop (s : Timers ι) (i : ι) : Timers ι × Err :=
  if (s.timer i).activated then
    let s := s.rtTimerRemove i
    (s.setTimer i { s.timer i with activated := false }, .eok)
  else
    (s, .error)

/-- `rt_timer_detach`: it unlinks the timer and leaves its flags as they are. -/
def rtTimerDetach (s : Timers ι) (i : ι) : Timers ι := s.rtTimerRemove i

/-- `rt_timer_control` with `RT_TIMER_CTRL_SET_TIME`. -/
def rtTimerSetTime (s : Timers ι) (i : ι) (tick : Nat) : Timers ι :=
  s.setTimer i { s.timer i with initTick := tick }

/-- The commands of `rt_timer_control`. -/
inductive Ctrl where
  | getTime
  | setTime (tick : Nat)
  | setOneshot
  | setPeriodic
  deriving DecidableEq, Repr

/-- `rt_timer_control`, with what it writes to `arg`. -/
def rtTimerControl (s : Timers ι) (i : ι) : Ctrl → Timers ι × Option Nat
  | .getTime => (s, some (s.timer i).initTick)
  | .setTime tick => (s.rtTimerSetTime i tick, none)
  | .setOneshot => (s.setTimer i { s.timer i with periodic := false }, none)
  | .setPeriodic => (s.setTimer i { s.timer i with periodic := true }, none)

/-- What `rt_timer_check` does with a timer after its timeout function returned: a
periodic timer that is still activated is started again, any other one is stopped. -/
def rearm (s : Timers ι) (i : ι) : Option (Timers ι) :=
  let stopped := s.setTimer i { s.timer i with activated := false }
  if (s.timer i).periodic ∧ (s.timer i).activated then do
    let (s, _) ← stopped.rtTimerStart i
    return s
  else
    some stopped

/-- The loop of `rt_timer_check`, with at most `fuel` rounds. `timeoutFunc i` is what the
timeout function of timer `i` does to the timers. The result lists the timers whose
timeout function was called, in call order. -/
def rtTimerCheckLoop (timeoutFunc : ι → Timers ι → Timers ι) :
    Nat → Nat → Timers ι → Option (Timers ι × List ι)
  | 0, _, _ => none
  | fuel + 1, currentTick, s =>
    match s.timerList with
    | [] => some (s, [])
    | t :: _ =>
      if sub32 currentTick (s.timer t).timeoutTick < rtTickMax / 2 then do
        let s := timeoutFunc t (s.rtTimerRemove t)
        -- re-get tick
        let currentTick := s.rtTick
        let s ← s.rearm t
        let (s, fired) ← rtTimerCheckLoop timeoutFunc fuel currentTick s
        return (s, t :: fired)
      else
        some (s, [])

/-- `rt_timer_check`. Every round unlinks the head of the list, so the fuel is one more
than the number of linked timers when no timer comes due again in the same check. -/
def rtTimerCheck (timeoutFunc : ι → Timers ι → Timers ι) (s : Timers ι) :
    Option (Timers ι × List ι) :=
  rtTimerCheckLoop timeoutFunc (s.timerList.length + 1) s.rtTick s

/-- `rt_tick_increase` as far as the timers go: the tick, then the check. -/
def rtTickIncrease (timeoutFunc : ι → Timers ι → Timers ι) (s : Timers ι) :
    Option (Timers ι × List ι) :=
  rtTimerCheck timeoutFunc { s with rtTick := add32 s.rtTick 1 }

/-! ## Field lemmas -/

section Fields

variable (s : Timers ι) (i j : ι) (t : Timer)

@[simp] theorem setTimer_rtTick : (s.setTimer i t).rtTick = s.rtTick := rfl
@[simp] theorem setTimer_timerList : (s.setTimer i t).timerList = s.timerList := rfl
@[simp] theorem setTimer_same : (s.setTimer i t).timer i = t := Function.update_self ..
@[simp] theorem rtTimerRemove_rtTick : (s.rtTimerRemove i).rtTick = s.rtTick := rfl
@[simp] theorem rtTimerRemove_timer : (s.rtTimerRemove i).timer = s.timer := rfl
@[simp] theorem rtTimerRemove_timerList :
    (s.rtTimerRemove i).timerList = s.timerList.erase i := rfl

variable {i j} in
theorem setTimer_of_ne (h : j ≠ i) : (s.setTimer i t).timer j = s.timer j :=
  Function.update_of_ne h ..

end Fields

end Timers

end RtThread
