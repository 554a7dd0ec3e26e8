-- SUMMARY: Timed waits: the deadline over stolen wake-ups.
import ZigbeeGateway.Kernel.IpcClock

/-!
# Timed waits

`rt_mb_recv`, `rt_mb_send_wait` and `rt_mq_recv` wait in a loop. A thread that is woken up looks
at the condition of its loop again, and when another thread was faster it computes the time that
is left and suspends itself once more. The state of `IpcRun` is extended by the tick without the
wrap-around, by the beginning of each timed call, and by the calls that have returned.

The time that is left is a difference in `rt_uint32_t`, stored in an `rt_int32_t`. It is right as
long as the thread runs again at most `2 ^ 31` ticks after its deadline. A thread that stays ready
for longer finds a positive time left, and waits on.
-/

namespace RtThread.TimedWait

open Word Run WaitTimer IpcClock Function
open Option (bind_eq_some_iff map_eq_some_iff)

open IpcRun (Call Event Looks mqResult Checks proper)

/-! ## The system -/

/-- The condition that the loop of a call waits for. -/
def holds (s : IpcRun.Sys) : Call → Bool
  | .mbSend n _ _ _ => (s.mb n).entry != (s.mb n).size
  | .mbRecv n _ _ => (s.mb n).entry != 0
  | .mqRecv n _ _ => (s.mq n).entry != 0
  | _ => true

/-- The local variables `timeout` and `tick_delta` of a call with a loop. -/
def locals : Call → Option (Int × Nat)
  | .mbSend _ _ timeout tickDelta => some (timeout, tickDelta)
  | .mbRecv _ timeout tickDelta => some (timeout, tickDelta)
  | .mqRecv _ timeout tickDelta => some (timeout, tickDelta)
  | _ => none

/-- How a suspended call with a loop ends its section when it goes on. -/
def outcomeOf (s : IpcRun.Sys) (t : Tid) : Call → Option (Outcome Err)
  | .mbSend n value timeout tickDelta =>
    (Mailbox.rtMbSendResume s.kernel (s.mb n) t value timeout tickDelta).map fun (_, _, r) => r
  | .mbRecv n timeout tickDelta =>
    (Mailbox.rtMbRecvResume s.kernel (s.mb n) t timeout tickDelta).map fun (_, _, r) =>
      r.map Mailbox.Received.result
  | .mqRecv n timeout tickDelta =>
    (MessageQueue.rtMqRecvResume s.kernel (s.mq n) t timeout tickDelta).map fun (_, _, r) =>
      r.map mqResult
  | _ => none

/-- A timed call: the tick at which it began, its waiting time, and whether its condition held
when it last looked. A call that is suspended was first suspended at the tick it began at. -/
structure InCall where
  first : Nat
  time : Nat
  held : Bool
  deriving DecidableEq, Repr

def InCall.deadline (c : InCall) : Nat := c.first + c.time

/-- A timed call that has returned. -/
structure Return where
  call : InCall
  finished : Nat
  result : Err
  deriving DecidableEq, Repr

structure Sys where
  ipc : IpcRun.Sys
  /-- The tick without the wrap-around. -/
  now : Nat
  /-- The timed call of each thread. -/
  call : Tid → Option InCall
  /-- The timed calls that have returned. -/
  returns : List Return

namespace Sys

/-- A section of a timed call of thread `t` has ended. -/
def settle (s : Sys) (t : Tid) (c : InCall) : Outcome Err → Sys
  | .returned result =>
    { s with
      call := update s.call t none
      returns := s.returns ++ [⟨c, s.now, result⟩] }
  | .blocked _ _ => { s with call := update s.call t (some c) }

/-- Thread `t` makes a call. It is a timed one for a positive waiting time below
`RT_TICK_MAX / 2`. -/
def enter (s : Sys) (t : Tid) (timeout : Int) (call : Call) : Option (Outcome Err) → Sys
  | some outcome =>
    if 0 < timeout ∧ timeout < (rtTickMax / 2 : Nat) then
      s.settle t ⟨s.now, timeout.toNat, holds s.ipc call⟩ outcome
    else
      s
  | none => s

/-- The timed call of thread `t` goes on. It looks at its condition unless the thread was given an
error number. -/
def goOn (s : Sys) (t : Tid) : Sys :=
  match s.call t, s.ipc.wait t with
  | some c, some w =>
    match outcomeOf s.ipc t w.call with
    | some outcome =>
      let held := if (s.ipc.kernel.thread t).error = .eok then holds s.ipc w.call else c.held
      s.settle t { c with held := held } outcome
    | none => s
  | _, _ => s

/-- What a step adds to the history of the timed calls. -/
def observe (s : Sys) : Event → Sys
  | .mbSend n t value timeout =>
    s.enter t timeout (.mbSend n value timeout 0)
      ((Mailbox.rtMbSendWait s.ipc.kernel (s.ipc.mb n) t value timeout).map fun (_, _, r) => r)
  | .mbRecv n t timeout =>
    s.enter t timeout (.mbRecv n timeout 0)
      ((Mailbox.rtMbRecv s.ipc.kernel (s.ipc.mb n) t timeout).map fun (_, _, r) =>
        r.map Mailbox.Received.result)
  | .mqRecv n t size timeout =>
    s.enter t timeout (.mqRecv n timeout 0)
      ((MessageQueue.rtMqRecv s.ipc.kernel (s.ipc.mq n) (.thread t) size timeout).map
        fun (_, _, r) => r.map mqResult)
  | .resume t => s.goOn t
  | .tick => { s with now := s.now + 1 }
  | _ => s

def setIpc (s : Sys) (ipc : IpcRun.Sys) : Sys := { s with ipc := ipc }

end Sys

def step (s : Sys) (e : Event) : Option Sys := do
  rtAssert (proper s.ipc e = true)
  let ipc ← IpcRun.step s.ipc e
  return (s.observe e).setIpc ipc

/-- Nobody waits, and no timed call was made. The tick may be any. -/
structure Initial (s : Sys) : Prop where
  ipc : IpcRun.Initial s.ipc
  tick : s.ipc.kernel.threadTimer.rtTick < size32
  now : s.now = s.ipc.kernel.threadTimer.rtTick
  call : ∀ t, s.call t = none
  returns : s.returns = []

/-- A thread that was woken up and finds its condition false runs again at most `2 ^ 31` ticks
after its deadline. -/
def RunsInTime (s : Sys) : Event → Prop
  | .resume t => ∀ c w, s.call t = some c → s.ipc.wait t = some w →
      (s.ipc.kernel.thread t).error = .eok → holds s.ipc w.call = false →
      s.now ≤ c.deadline + 2147483648
  | _ => True

/-! ## One look at the condition -/

variable {k k' : Kernel} {t u : Tid} {timeout : Int} {tickDelta last now : Nat} {c : InCall}

/-- The time that is left for a thread that runs again in time. -/
theorem remainingTime_eq {d : Nat} (hpos : 0 < timeout) (hshort : timeout < (rtTickMax / 2 : Nat))
    (hd : (last : Int) + timeout = d) (hlast : last ≤ now) (hnow : now ≤ d + 2147483648)
    (htick : k.threadTimer.rtTick = now % size32) :
    remainingTime k timeout (last % size32) = max ((d : Int) - now) 0 := by
  have hdelta : sub32 k.threadTimer.rtTick (last % size32) = now - last := by
    rw [htick]
    refine sub32_mod_of_le hlast ?_
    unfold rtTickMax at hshort
    unfold size32
    omega
  have hbmod : Int.bmod (timeout - (now - last : Nat)) 4294967296 = (d : Int) - now := by
    unfold rtTickMax at hshort
    rw [Int.bmod_eq_of_le (by omega) (by omega)]
    omega
  simp only [remainingTime, if_pos hpos, hdelta, hbmod]
  omega

/-! ## A thread in a timed call -/

/-- A thread in a timed call that last suspended itself at the tick `last`. While it is suspended
its timer runs up to the deadline, and it gets `RT_ETIMEOUT` at the deadline only. -/
structure Waiting (k : Kernel) (now : Nat) (t : Tid) (c : InCall) (timeout : Int)
    (tickDelta last : Nat) : Prop where
  held : c.held = false
  pos : 0 < timeout
  short : timeout < (rtTickMax / 2 : Nat)
  deadline : (last : Int) + timeout = c.deadline
  last_le : last ≤ now
  tickDelta : tickDelta = last % size32
  suspended : (k.thread t).stat = .suspend →
    ((k.thread t).error = .eok ∨ (k.thread t).error = .error) ∧
    (k.threadTimer.timer t).activated = true ∧
    (k.threadTimer.timer t).timeoutTick = c.deadline % size32 ∧ now ≤ c.deadline
  awake : (k.thread t).stat ≠ .suspend →
    (k.thread t).error ≠ .efull ∧ ((k.thread t).error = .etimeout → c.deadline ≤ now)

namespace Waiting

variable (h : Waiting k now t c timeout tickDelta last)

include h

/-- The deadline is less than half the tick range away. -/
theorem deadline_lt : c.deadline < now + rtTickMax / 2 := by
  have hshort := h.short
  have hdeadline := h.deadline
  have hlast := h.last_le
  omega

/-- Only the thread and its timer matter. -/
theorem congr (hthread : k'.thread t = k.thread t)
    (htimer : k'.threadTimer.timer t = k.threadTimer.timer t) :
    Waiting k' now t c timeout tickDelta last := by
  refine ⟨h.held, h.pos, h.short, h.deadline, h.last_le, h.tickDelta, ?_, ?_⟩
  · rw [hthread, htimer]
    exact h.suspended
  · rw [hthread]
    exact h.awake

/-- A step in which the thread takes no part. -/
theorem spared (hrests : Rests t k k')
    (hmild : Mild t k k') : Waiting k' now t c timeout tickDelta last := by
  refine ⟨h.held, h.pos, h.short, h.deadline, h.last_le, h.tickDelta, fun hstat => ?_, fun _ => ?_⟩
  · obtain ⟨hstat0, htimer⟩ := hrests.still hstat
    obtain ⟨herror, hrest⟩ := h.suspended hstat0
    rw [htimer]
    refine ⟨?_, hrest⟩
    rcases hmild with heq | hnew
    · rwa [heq]
    · exact hnew
  · rcases hmild with heq | heq | heq
    · rw [heq]
      by_cases hstat : (k.thread t).stat = .suspend
      · rcases (h.suspended hstat).1 with herror | herror
        all_goals simp [herror]
      · exact h.awake hstat
    all_goals simp [heq]

/-- `rt_timer_check`, at the tick `now'` of the clock. -/
theorem rings {now' : Nat} (hrings : Rings t k k')
    (hle : now ≤ now') (hnext : now' ≤ now + 1) (hclock : k.threadTimer.rtTick = now' % size32)
    (hok : TimersOk k'.threadTimer) (hon : OnTime k'.threadTimer now') :
    Waiting k' now' t c timeout tickDelta last := by
  have hlt := h.deadline_lt
  have hlast := h.last_le
  refine ⟨h.held, h.pos, h.short, h.deadline, by omega, h.tickDelta, fun hstat => ?_,
    fun hstat => ?_⟩
  · cases hrings with
    | kept hthread htimer =>
      rw [hthread] at hstat ⊢
      rw [htimer]
      obtain ⟨herror, hact, htick, hnow⟩ := h.suspended hstat
      have hmem : t ∈ k'.threadTimer.timerList := by
        rw [← hok.activated, htimer]
        exact hact
      refine ⟨herror, hact, htick, ?_⟩
      exact hon.le_deadline hmem (htimer ▸ htick) (by omega) (by omega)
    | expired _ _ hready => cases hready.symm.trans hstat
  · cases hrings with
    | kept hthread htimer =>
      rw [hthread] at hstat ⊢
      obtain ⟨hfull, htimeout⟩ := h.awake hstat
      exact ⟨hfull, fun herror => (htimeout herror).trans hle⟩
    | expired hsuspend hdue hready herror =>
      obtain ⟨-, -, htick, -⟩ := h.suspended hsuspend
      rw [herror]
      exact ⟨nofun, fun _ => hdue.le hclock htick (by omega)⟩

end Waiting

/-- A thread that suspends itself for a positive time up to its deadline. -/
theorem waiting_of_block {hd : ListHead} {flag : IpcFlag} {wait : Tid → Option (Wait Call)}
    (hinv : WaitTimer.Inv k wait) (hon : OnTime k.threadTimer now)
    (hready : (k.thread t).stat = .ready) (hheld : c.held = false) (hpos : 0 < timeout)
    (hd' : (now : Int) + timeout = c.deadline)
    (hk : ((k.setError t .eok).rtIpcListSuspend hd t flag).startThreadTimer
      t timeout = some k') (htick : 0 < timeout → tickDelta =
      ((k.setError t .eok).rtIpcListSuspend hd t flag).threadTimer.rtTick) :
    Waiting k' now t c timeout tickDelta now := by
  obtain ⟨k1, hk1⟩ : ∃ k1, k1 = k.setError t .eok := ⟨_, rfl⟩
  rw [← hk1] at hk htick
  have hready1 : (k1.thread t).stat = .ready := by simpa [hk1] using hready
  have htimer : (k1.rtIpcListSuspend hd t flag).threadTimer = k.threadTimer := by
    rw [show (k1.rtIpcListSuspend hd t flag).threadTimer = _ from suspend_threadTimer hready1, hk1]
    rfl
  have hthread : (k1.rtIpcListSuspend hd t flag).thread t =
      { k.thread t with error := .eok, stat := .suspend } := by
    rw [show (k1.rtIpcListSuspend hd t flag).thread = _ from Kernel.rtThreadSuspend_thread hready1]
    simp [hk1]
  have hfree := hinv.not_linked hready
  obtain ⟨-, hstarted⟩ := startThreadTimer_timers (htimer ▸ hon) (htimer ▸ hinv.timers)
    (htimer ▸ hfree) hk
  obtain ⟨hshort, htimers⟩ := hstarted hpos
  obtain ⟨timers, rfl⟩ := Kernel.startThreadTimer_eq_some hk
  rw [htimer] at htimers htick
  refine ⟨hheld, hpos, hshort, hd', le_rfl, (htick hpos).trans hon.rtTick, fun _ => ?_, fun hstat => ?_⟩
  · refine ⟨.inl (congrArg Thread.error hthread), ?_⟩
    rw [htimers, TimerRun.started_same]
    refine ⟨rfl, ?_, by omega⟩
    simp only [Timers.rtTimerSetTime, Timers.setTimer_same, Timers.setTimer_rtTick, add32, hon.rtTick,
      size32]
    omega
  · exact absurd (congrArg Thread.stat hthread) hstat

/-- The tick after a step. -/
def nextTick (now : Nat) : Event → Nat
  | .tick => now + 1
  | _ => now

/-- What a step does to a thread in a timed call that does not go on with it. -/
theorem step_waiting {s s' : IpcRun.Sys} {e : Event} (h : IpcRun.Inv s)
    (hon : OnTime s.kernel.threadTimer now) (hproper : proper s e = true)
    (hs : IpcRun.step s e = some s') :
    OnTime s'.kernel.threadTimer (nextTick now e) ∧ ∀ t c timeout tickDelta last, s.wait t ≠ none →
      e ≠ .resume t → Waiting s.kernel now t c timeout tickDelta last →
      s'.wait t = s.wait t ∧ Waiting s'.kernel (nextTick now e) t c timeout tickDelta last := by
  have hinv := h.step hs
  have hacts (he : ¬ Checks e) := step_acts h hproper he hs
  cases e with
  | tick =>
    obtain ⟨k, hk, ⟨⟩⟩ := bind_eq_some_iff.mp hs
    have hon' := hon.rtTickIncrease h.wait hk
    refine ⟨hon', fun t c timeout tickDelta last _ _ hwaiting => ⟨rfl, ?_⟩⟩
    obtain ⟨hrings, -⟩ := rings_rtTimerCheckLoop (t := t) h.wait.tick hk
    have hclock : add32 s.kernel.threadTimer.rtTick 1 = (now + 1) % size32 := by
      simp only [add32, hon.rtTick, size32]
      omega
    have hticked : Waiting { s.kernel with threadTimer := { s.kernel.threadTimer with
        rtTick := add32 s.kernel.threadTimer.rtTick 1 } } now t c timeout tickDelta last :=
      hwaiting.congr rfl rfl
    exact hticked.rings hrings (Nat.le_succ _) le_rfl hclock hinv.wait.timers hon'
  | timerCheckRound =>
    simp only [IpcRun.step] at hs
    split at hs
    · cases hs
    next u rest _ =>
      obtain ⟨hdue, hs⟩ := rtAssert_bind_eq_some.mp hs
      obtain ⟨k, hk, ⟨⟩⟩ := bind_eq_some_iff.mp hs
      have hon' := hon.expire h.wait hk
      refine ⟨hon', fun t c timeout tickDelta last _ _ hwaiting => ⟨rfl, ?_⟩⟩
      obtain ⟨hrings, -⟩ := rings_expire (t := t) h.wait hdue hk
      exact hwaiting.rings hrings le_rfl (Nat.le_succ _) hon.rtTick hinv.wait.timers hon'
  | _ =>
    refine ⟨(hacts id).onTime _ hon, fun t c timeout tickDelta last hwait hne hwaiting => ?_⟩
    obtain ⟨hrests, hmild, hsame⟩ := (hacts id).spares t hwait hne
    exact ⟨hsame, hwaiting.spared hrests hmild⟩

/-! ## Sections of timed calls -/

variable {s s' : Sys} {ipc : IpcRun.Sys} {e : Event} {call : Call} {r : Outcome Err}

/-- The wait that a suspended section leaves behind. -/
def Left (ipc : IpcRun.Sys) (t : Tid) (r : Outcome Err) : Prop :=
  ∀ timeout tickDelta, r = .blocked timeout tickDelta →
    ∃ w, ipc.wait t = some w ∧ locals w.call = some (timeout, tickDelta)

theorem left_afterMbSend (s : IpcRun.Sys) (n : Nat) (value : BitVec 32) (k : Kernel) (mb : Mailbox)
    (r : Outcome Err) :
    (s.afterMbSend n t value (k, mb, r)).kernel = k ∧ Left (s.afterMbSend n t value (k, mb, r)) t r := by
  cases r with
  | returned err => exact ⟨rfl, nofun⟩
  | blocked timeout tickDelta =>
    refine ⟨rfl, ?_⟩
    rintro _ _ ⟨⟩
    exact ⟨_, update_self .., rfl⟩

theorem left_afterMbRecv (s : IpcRun.Sys) (n : Nat) (k : Kernel) (mb : Mailbox)
    (r : Outcome Mailbox.Received) :
    (s.afterMbRecv n t (k, mb, r)).kernel = k ∧
      Left (s.afterMbRecv n t (k, mb, r)) t (r.map Mailbox.Received.result) := by
  cases r with
  | returned err => exact ⟨rfl, nofun⟩
  | blocked timeout tickDelta =>
    refine ⟨rfl, ?_⟩
    rintro _ _ ⟨⟩
    exact ⟨_, update_self .., rfl⟩

theorem left_afterMqRecv (s : IpcRun.Sys) (n : Nat) (k : Kernel) (mq : MessageQueue)
    (r : Outcome (Except Err Nat)) :
    (s.afterMqRecv n t (k, mq, r)).kernel = k ∧
      Left (s.afterMqRecv n t (k, mq, r)) t (r.map mqResult) := by
  cases r with
  | returned err => exact ⟨rfl, nofun⟩
  | blocked timeout tickDelta =>
    refine ⟨rfl, ?_⟩
    rintro _ _ ⟨⟩
    exact ⟨_, update_self .., rfl⟩

/-- A suspended call goes on: it returns the error number of its thread, or it looks at its
condition. -/
theorem outcomeOf_cases {s ipc : IpcRun.Sys} (hlocals : locals call = some (timeout, tickDelta))
    (hs : (s.leave t).goOn t call = some ipc) :
    ∃ r, outcomeOf s t call = some r ∧ Left ipc t r ∧
      (((s.kernel.thread t).error ≠ .eok ∧ r = .returned (s.kernel.thread t).error) ∨
        ((s.kernel.thread t).error = .eok ∧
          Looks s.kernel ipc.kernel t (holds s call) (remainingTime s.kernel timeout tickDelta) r)) := by
  cases call with
  | semTake | mutexTake | eventRecv | sleep => cases hlocals
  | mbSend n value timeout tickDelta =>
    cases hlocals
    obtain ⟨⟨k, mb, r⟩, hr, rfl⟩ := map_eq_some_iff.mp hs
    obtain ⟨hkernel, hleft⟩ := left_afterMbSend (t := t) (s.leave t) n value k mb r
    refine ⟨r, map_eq_some_iff.mpr ⟨_, hr, rfl⟩, hleft, ?_⟩
    rw [hkernel]
    simp only [Mailbox.rtMbSendResume] at hr
    split at hr
    next herror =>
      cases hr
      exact .inl ⟨herror, rfl⟩
    next herror =>
      have hlooks := (IpcRun.section_rtMbSendLoop (fun _ => True) (fun _ => True) hr).1
      exact .inr ⟨not_not.mp herror, hlooks⟩
  | mbRecv n timeout tickDelta =>
    cases hlocals
    obtain ⟨⟨k, mb, r⟩, hr, rfl⟩ := map_eq_some_iff.mp hs
    obtain ⟨hkernel, hleft⟩ := left_afterMbRecv (t := t) (s.leave t) n k mb r
    refine ⟨_, map_eq_some_iff.mpr ⟨_, hr, rfl⟩, hleft, ?_⟩
    rw [hkernel]
    simp only [Mailbox.rtMbRecvResume] at hr
    split at hr
    next herror =>
      cases hr
      exact .inl ⟨herror, rfl⟩
    next herror =>
      have hlooks := (IpcRun.section_rtMbRecvLoop (fun _ => True) (fun _ => True) (fun _ _ => trivial) hr).1
      exact .inr ⟨not_not.mp herror, hlooks⟩
  | mqRecv n timeout tickDelta =>
    cases hlocals
    obtain ⟨⟨k, mq, r⟩, hr, rfl⟩ := map_eq_some_iff.mp hs
    obtain ⟨hkernel, hleft⟩ := left_afterMqRecv (t := t) (s.leave t) n k mq r
    refine ⟨_, map_eq_some_iff.mpr ⟨_, hr, rfl⟩, hleft, ?_⟩
    rw [hkernel]
    simp only [MessageQueue.rtMqRecvResume] at hr
    split at hr
    next herror =>
      cases hr
      exact .inl ⟨herror, rfl⟩
    next herror =>
      have hlooks := (IpcRun.section_rtMqRecvLoop (fun _ => True) (fun _ => True) (fun _ _ => trivial) hr).1
      exact .inr ⟨not_not.mp herror, hlooks⟩

/-! ## The invariant -/

/-- A call with a timeout or full error returned at its deadline or later, and it had found its
condition false. -/
def Return.Justified (r : Return) : Prop :=
  r.result = .etimeout ∨ r.result = .efull → r.call.deadline ≤ r.finished ∧ r.call.held = false

theorem Return.justified_eok (c : InCall) (finished : Nat) :
    Return.Justified ⟨c, finished, .eok⟩ := by
  simp [Return.Justified]

/-- The timed call of a thread, with the variables of its suspended call. -/
def InWait (ipc : IpcRun.Sys) (now : Nat) (t : Tid) (c : InCall) : Prop :=
  ∃ w timeout tickDelta last, ipc.wait t = some w ∧ locals w.call = some (timeout, tickDelta) ∧
    Waiting ipc.kernel now t c timeout tickDelta last

structure Inv (s : Sys) : Prop where
  ipc : IpcRun.Inv s.ipc
  onTime : OnTime s.ipc.kernel.threadTimer s.now
  waits : ∀ t c, s.call t = some c → InWait s.ipc s.now t c
  returns : ∀ r ∈ s.returns, r.Justified

theorem Initial.inv (h : Initial s) : Inv s := by
  refine ⟨h.ipc.inv, ?_, fun t c hc => ?_, ?_⟩
  · refine ⟨⟨s.now, fun _ => 0, fun _ => 0, 0⟩, rfl, ?_, ?_, ?_⟩
    · exact h.now ▸ (Nat.mod_eq_of_lt h.tick).symm
    · simp [h.ipc.timerList]
    · simp [h.ipc.timerList]
  · cases (h.call t).symm.trans hc
  · simp [h.returns]

theorem Inv.wait_ne (h : Inv s) (hc : s.call t = some c) : s.ipc.wait t ≠ none := by
  obtain ⟨w, -, -, -, hw, -⟩ := h.waits t c hc
  simp [hw]

/-- The timed call of a thread that takes no part in a step. -/
theorem Inv.spared (h : Inv s) (hc : s.call t = some c) (hacts : Acts s.ipc ipc e)
    (hne : e ≠ .resume t) : InWait ipc s.now t c := by
  obtain ⟨hrests, hmild, hwait⟩ := hacts.spares t (h.wait_ne hc) hne
  obtain ⟨w, timeout, tickDelta, last, hw, hlocals, hwaiting⟩ := h.waits t c hc
  exact ⟨w, timeout, tickDelta, last, hwait.trans hw, hlocals, hwaiting.spared hrests hmild⟩

/-- A step that belongs to no timed call. -/
theorem Inv.idle (h : Inv s) (hipc : IpcRun.Inv ipc) (hacts : Acts s.ipc ipc e)
    (hne : ∀ t c, s.call t = some c → e ≠ .resume t) : Inv (s.setIpc ipc) :=
  ⟨hipc, hacts.onTime _ h.onTime, fun t c hc => h.spared hc hacts (hne t c hc), h.returns⟩

/-- A section of a timed call of thread `u`. -/
theorem Inv.settle (h : Inv s) (hipc : IpcRun.Inv ipc) (hacts : Acts s.ipc ipc e)
    (hne : ∀ t, t ≠ u → e ≠ .resume t)
    (hreturned : ∀ err, r = .returned err → Return.Justified ⟨c, s.now, err⟩)
    (hblocked : ∀ timeout tickDelta, r = .blocked timeout tickDelta → InWait ipc s.now u c) :
    Inv ((s.settle u c r).setIpc ipc) := by
  have hother : ∀ t c', t ≠ u → s.call t = some c' → InWait ipc s.now t c' :=
    fun t c' htu hc => h.spared hc hacts (hne t htu)
  cases r with
  | returned err =>
    refine ⟨hipc, hacts.onTime _ h.onTime, fun t c' hc => ?_, fun ret hret => ?_⟩
    · rcases eq_or_ne t u with rfl | htu
      · cases (update_self ..).symm.trans hc
      · exact hother t c' htu ((update_of_ne htu _ _).symm.trans hc)
    · rcases List.mem_append.mp hret with hret | hret
      · exact h.returns ret hret
      · rw [List.mem_singleton.mp hret]
        exact hreturned err rfl
  | blocked timeout tickDelta =>
    refine ⟨hipc, hacts.onTime _ h.onTime, fun t c' hc => ?_, h.returns⟩
    rcases eq_or_ne t u with rfl | htu
    · cases (update_self ..).symm.trans hc
      exact hblocked timeout tickDelta rfl
    · exact hother t c' htu ((update_of_ne htu _ _).symm.trans hc)

/-- Thread `u` makes a call with a loop. -/
theorem Inv.enter (h : Inv s) (hipc : IpcRun.Inv ipc) (hacts : Acts s.ipc ipc e)
    (hcall : s.ipc.MayCall u timeout) (hne : ∀ t, e ≠ .resume t) (hleft : Left ipc u r)
    (hlooks : timeout ≠ 0 → Looks s.ipc.kernel ipc.kernel u (holds s.ipc call) timeout r) :
    Inv ((s.enter u timeout call (some r)).setIpc ipc) := by
  rw [Sys.enter]
  split
  next htime =>
    obtain ⟨hpos, -⟩ := htime
    have hlooks := hlooks hpos.ne'
    have hready := (hcall.resolve_left hpos.ne').1
    refine h.settle hipc hacts (fun t _ => hne t) (fun err herr => ?_) (fun time delta hr => ?_)
    · subst herr
      cases hlooks with
      | found => exact Return.justified_eok _ _
      | gaveUp hheld hzero => exact absurd hzero hpos.ne'
    · obtain ⟨w, hw, hlocals⟩ := hleft time delta hr
      subst hr
      cases hlooks with
      | waits hheld _ hk htick =>
        have hdeadline : (s.now : Int) + timeout =
            (⟨s.now, timeout.toNat, holds s.ipc call⟩ : InCall).deadline := by
          simp only [InCall.deadline]
          omega
        exact ⟨w, timeout, delta, s.now, hw, hlocals,
          waiting_of_block h.ipc.wait h.onTime hready hheld hpos hdeadline hk htick⟩
  next => exact h.idle hipc hacts fun t _ _ => hne t

/-- The timed call of a thread goes on. -/
theorem Inv.goOn {w : Wait Call} (h : Inv s) (hipc : IpcRun.Inv ipc)
    (hacts : Acts s.ipc ipc (.resume u)) (hready : (s.ipc.kernel.thread u).stat = .ready)
    (hw : s.ipc.wait u = some w) (hs : (s.ipc.leave u).goOn u w.call = some ipc)
    (hrun : RunsInTime s (.resume u)) : Inv ((s.goOn u).setIpc ipc) := by
  have hne : ∀ t, t ≠ u → Event.resume u ≠ .resume t := by
    rintro t htu ⟨⟩
    exact htu rfl
  cases hc : s.call u with
  | none =>
    have hsame : s.goOn u = s := by simp [Sys.goOn, hc]
    rw [hsame]
    refine h.idle hipc hacts fun t c ht => hne t ?_
    rintro rfl
    cases hc.symm.trans ht
  | some c =>
    obtain ⟨w', timeout, tickDelta, last, hw', hlocals, hwaiting⟩ := h.waits u c hc
    obtain rfl : w = w' := Option.some.inj (hw.symm.trans hw')
    obtain ⟨r, houtcome, hleft, hcases⟩ := outcomeOf_cases hlocals hs
    have hawake := hwaiting.awake (by simp [hready])
    have hgo : s.goOn u = s.settle u { c with held :=
        if (s.ipc.kernel.thread u).error = .eok then holds s.ipc w.call else c.held } r := by
      simp only [Sys.goOn, hc, hw, houtcome]
    rw [hgo]
    rcases hcases with ⟨herror, rfl⟩ | ⟨herror, hlooks⟩
    · -- the thread was woken up with an error number
      rw [if_neg herror]
      refine h.settle hipc hacts hne (fun err herr => ?_) nofun
      cases herr
      rintro (htimeout | hfull)
      · exact ⟨hawake.2 htimeout, hwaiting.held⟩
      · exact absurd hfull hawake.1
    · -- it looks again, with the time that is left up to the same deadline
      rw [if_pos herror]
      have hremaining (hfalse : holds s.ipc w.call = false) :
          remainingTime s.ipc.kernel timeout tickDelta = max ((c.deadline : Int) - s.now) 0 := by
        rw [hwaiting.tickDelta]
        exact remainingTime_eq hwaiting.pos hwaiting.short hwaiting.deadline hwaiting.last_le
          (hrun c w hc hw herror hfalse) h.onTime.rtTick
      refine h.settle hipc hacts hne (fun err herr => ?_) (fun time delta hr => ?_)
      · subst herr
        cases hlooks with
        | found => exact Return.justified_eok _ _
        | gaveUp hfalse hzero =>
          intro _
          rw [hremaining hfalse] at hzero
          refine ⟨?_, hfalse⟩
          change c.deadline ≤ s.now
          omega
      · obtain ⟨w', hw', hlocals'⟩ := hleft time delta hr
        subst hr
        cases hlooks with
        | waits hfalse hzero hk htick =>
          rw [hremaining hfalse] at hzero hk htick hlocals'
          refine ⟨w', _, delta, s.now, hw', hlocals', ?_⟩
          refine waiting_of_block h.ipc.wait h.onTime hready hfalse (by omega) ?_ hk htick
          change _ = (c.deadline : Int)
          omega

/-- Every step in time keeps the invariant. -/
theorem Inv.step (h : Inv s) (hrun : RunsInTime s e) (hs : step s e = some s') : Inv s' := by
  obtain ⟨hproper, hs⟩ := rtAssert_bind_eq_some.mp hs
  obtain ⟨ipc, hipc, ⟨⟩⟩ := bind_eq_some_iff.mp hs
  have hinv := h.ipc.step hipc
  have hacts (he : ¬ Checks e) : Acts s.ipc ipc e := step_acts h.ipc hproper he hipc
  cases e with
  | mbSend n u value timeout =>
    have hacts := hacts id
    obtain ⟨hcall, hipc⟩ := rtAssert_bind_eq_some.mp hipc
    obtain ⟨⟨k, mb, r⟩, hr, rfl⟩ := map_eq_some_iff.mp hipc
    obtain ⟨hkernel, hleft⟩ := left_afterMbSend (t := u) s.ipc n value k mb r
    simp only [Sys.observe, hr, Option.map_some]
    refine h.enter hinv hacts hcall (by simp) hleft fun htime => ?_
    rw [hkernel]
    rw [Mailbox.rtMbSendWait, if_neg (fun hand => htime hand.2)] at hr
    exact (IpcRun.section_rtMbSendLoop (fun _ => True) (fun _ => True) hr).1
  | mbRecv n u timeout =>
    have hacts := hacts id
    obtain ⟨hcall, hipc⟩ := rtAssert_bind_eq_some.mp hipc
    obtain ⟨⟨k, mb, r⟩, hr, rfl⟩ := map_eq_some_iff.mp hipc
    obtain ⟨hkernel, hleft⟩ := left_afterMbRecv (t := u) s.ipc n k mb r
    simp only [Sys.observe, hr, Option.map_some]
    refine h.enter hinv hacts hcall (by simp) hleft fun htime => ?_
    rw [hkernel]
    rw [Mailbox.rtMbRecv, if_neg (fun hand => htime hand.2)] at hr
    exact (IpcRun.section_rtMbRecvLoop (fun _ => True) (fun _ => True) (fun _ _ => trivial) hr).1
  | mqRecv n u size timeout =>
    have hacts := hacts id
    obtain ⟨hcall, hipc⟩ := rtAssert_bind_eq_some.mp hipc
    obtain ⟨⟨k, mq, r⟩, hr, rfl⟩ := map_eq_some_iff.mp hipc
    obtain ⟨hkernel, hleft⟩ := left_afterMqRecv (t := u) s.ipc n k mq r
    simp only [Sys.observe, hr, Option.map_some]
    refine h.enter hinv hacts hcall (by simp) hleft fun htime => ?_
    rw [hkernel]
    obtain ⟨-, hr⟩ := rtAssert_bind_eq_some.mp hr
    rw [if_neg (fun hand => htime hand.2)] at hr
    exact (IpcRun.section_rtMqRecvLoop (fun _ => True) (fun _ => True) (fun _ _ => trivial) hr).1
  | resume u =>
    have hacts := hacts id
    obtain ⟨hready, hipc⟩ := rtAssert_bind_eq_some.mp hipc
    obtain ⟨w, hw, hipc⟩ := bind_eq_some_iff.mp hipc
    exact h.goOn hinv hacts hready hw hipc hrun
  | tick | timerCheckRound =>
    obtain ⟨hon, hwaits⟩ := step_waiting h.ipc h.onTime hproper hipc
    refine ⟨hinv, hon, fun t c hc => ?_, h.returns⟩
    obtain ⟨w, timeout, tickDelta, last, hw, hlocals, hwaiting⟩ := h.waits t c hc
    obtain ⟨hwait, hwaiting⟩ := hwaits t c _ _ _ (h.wait_ne hc) nofun hwaiting
    exact ⟨w, timeout, tickDelta, last, hwait.trans hw, hlocals, hwaiting⟩
  | _ => exact h.idle hinv (hacts id) (by simp)

/-! ## Runs -/

/-- In every run whose threads run again in time, however often they are woken up in vain: a
thread in a timed call is never suspended beyond its deadline, a call that returned with a
timeout or full error did so at its deadline or later and had found its condition false when
it last looked, and the clock can always go on. -/
theorem timed_wait_deadline {s0 : Sys} {es : List Event} (hinit : Initial s0)
    (hin : Along step RunsInTime s0 es) (hrun : run step s0 es = some s) :
    (∀ t c, s.call t = some c → (s.ipc.kernel.thread t).stat = .suspend →
      s.now ≤ c.first + c.time) ∧
    (∀ r ∈ s.returns, r.result = .etimeout ∨ r.result = .efull →
      r.call.first + r.call.time ≤ r.finished ∧ r.call.held = false) ∧
    ∃ s', step s .tick = some s' ∧ s'.now = s.now + 1 := by
  have hinv : Inv s :=
    run_invariant_along (fun _ _ _ h hP hs => h.step hP hs) hinit.inv hin hrun
  refine ⟨fun t c hc hstat => ?_, hinv.returns, ?_⟩
  · obtain ⟨w, timeout, tickDelta, last, -, -, hwaiting⟩ := hinv.waits t c hc
    exact (hwaiting.suspended hstat).2.2.2
  · obtain ⟨k, hk, -⟩ := hinv.ipc.wait.rtTickIncrease
    have hipc : IpcRun.step s.ipc .tick = some (s.ipc.setKernel k) :=
      bind_eq_some_iff.mpr ⟨k, hk, rfl⟩
    exact ⟨_, rtAssert_bind_eq_some.mpr ⟨rfl, bind_eq_some_iff.mpr ⟨_, hipc, rfl⟩⟩, rfl⟩

/-! ## A mail that another thread takes -/

/-- Two ready threads, and objects that nobody has used. -/
def start : Sys where
  ipc := IpcRun.unused
  now := 0
  call := fun _ => none
  returns := []

theorem start_initial : Initial start :=
  ⟨IpcRun.unused_initial, by decide, rfl, fun _ => rfl, rfl⟩

/-- Thread 0 waits for a mail, for `timeout` ticks. After one tick a mail is sent, and thread 1
takes it before thread 0 runs. -/
def stolen (timeout : Int) : List Event :=
  [.mbRecv 0 0 timeout, .tick, .mbSend 0 1 7 0, .mbRecv 0 1 0]

/-- Thread 0 runs at once, waits for the two ticks that are left, and gives up after three ticks. -/
theorem timed_wait_deadline_stolen :
    ∃ s, run step start (stolen 3 ++ [.resume 0, .tick, .tick, .resume 0]) = some s ∧
      s.returns = [⟨⟨0, 3, false⟩, 3, .etimeout⟩] ∧
      ∀ r ∈ s.returns, r.result = .etimeout ∨ r.result = .efull →
        r.call.first + r.call.time ≤ r.finished ∧ r.call.held = false := by
  let check (s : Sys) : Event → Bool
    | .resume t => (s.call t).all fun c => s.now ≤ c.deadline + 2147483648
    | _ => true
  have hcheck : ∀ s e, check s e = true → RunsInTime s e := by
    intro s e h
    cases e with
    | resume t =>
      intro c w hc _ _ _
      simpa [check, hc] using h
    | _ => trivial
  have hin : Along step RunsInTime start (stolen 3 ++ [.resume 0, .tick, .tick, .resume 0]) :=
    along_of_check hcheck (by decide +kernel)
  exact run_exists (Q := fun s => s.returns = [⟨⟨0, 3, false⟩, 3, .etimeout⟩]) (by decide +kernel)
    fun s hrun hreturns => ⟨hreturns, (timed_wait_deadline start_initial hin hrun).2.1⟩

/-- The state some ticks later, when no timer is linked. -/
def ticked (s : Sys) (n : Nat) : Sys :=
  { s with
    ipc := s.ipc.setKernel { s.ipc.kernel with
      threadTimer := { s.ipc.kernel.threadTimer with
        rtTick := (s.ipc.kernel.threadTimer.rtTick + n) % size32 } }
    now := s.now + n }

theorem run_ticks (hlist : s.ipc.kernel.threadTimer.timerList = [])
    (htick : s.ipc.kernel.threadTimer.rtTick < size32) (n : Nat) :
    run step s (List.replicate n .tick) = some (ticked s n) := by
  have hzero : ticked s 0 = s := by
    simp only [ticked, Nat.add_zero, Nat.mod_eq_of_lt htick]
    rfl
  have hstep : ∀ i, i < n → step (ticked s i) .tick = some (ticked s (i + 1)) := by
    intro i _
    have hadd : add32 ((s.ipc.kernel.threadTimer.rtTick + i) % size32) 1 =
        (s.ipc.kernel.threadTimer.rtTick + (i + 1)) % size32 := by
      simp only [add32, size32]
      omega
    have hk : WaitTimer.rtTickIncrease (ticked s i).ipc.kernel = some (ticked s (i + 1)).ipc.kernel := by
      simp only [WaitTimer.rtTickIncrease, ticked, IpcRun.Sys.setKernel, hadd, hlist]
      simp only [WaitTimer.rtTimerCheckLoop]
    have hipc : IpcRun.step (ticked s i).ipc .tick = some (ticked s (i + 1)).ipc :=
      bind_eq_some_iff.mpr ⟨_, hk, rfl⟩
    exact rtAssert_bind_eq_some.mpr ⟨rfl, bind_eq_some_iff.mpr ⟨_, hipc, rfl⟩⟩
  have hrun := run_replicate (ticked s) hstep
  rwa [hzero] at hrun

/-- Thread 0 is ready again and the mailbox is empty. -/
def robbed : Sys := endState step start (stolen 5)

/-- A thread that stays ready for more than `2 ^ 31` ticks after a mail that was stolen suspends
itself once more, long after its five ticks. -/
theorem suspended_past_deadline :
    Initial start ∧ ∃ es s c, run step start es = some s ∧ s.call 0 = some c ∧ c.time = 5 ∧
      (s.ipc.kernel.thread 0).stat = .suspend ∧ c.first + c.time < s.now := by
  have hfirst : run step start (stolen 5) = some robbed := run_endState (by decide +kernel)
  have hticks : run step robbed (List.replicate 2147483658 .tick) = some (ticked robbed 2147483658) :=
    run_ticks (by decide +kernel) (by decide +kernel) _
  obtain ⟨s, hresume, hcall, hstat, hnow⟩ : ∃ s ∈ step (ticked robbed 2147483658) (.resume 0),
      s.call 0 = some ⟨0, 5, false⟩ ∧ (s.ipc.kernel.thread 0).stat = .suspend ∧ 0 + 5 < s.now := by
    decide +kernel
  refine ⟨start_initial, stolen 5 ++ (List.replicate 2147483658 .tick ++ [.resume 0]), s, _, ?_, hcall, rfl,
    hstat, hnow⟩
  exact run_append.mpr ⟨_, hfirst, run_append.mpr ⟨_, hticks, run_cons.mpr ⟨s, hresume, rfl⟩⟩⟩

end RtThread.TimedWait
