-- SUMMARY: The timed waits of lwIP.
import ZigbeeGateway.Kernel.TimedWait

/-!
# Waits of the network stack

The model of `sys_arch_sem_wait` and `sys_arch_mbox_fetch` in `sys_arch.c`, and of
`rt_tick_from_millisecond` in `clock.c`. A thread `t` makes the waits in the system of `IpcRun`, where
the other threads may do anything.

A wait is rounded down to whole ticks of 10 ms. Other than in `TimedWait`, a thread may stay ready for
any time, since the time that is left never becomes too small by the wrap-around.
-/

namespace RtThread

open Word Run WaitTimer IpcClock TimedWait
open Option (bind_eq_some_iff)

/-- `RT_TICK_PER_SECOND`. -/
def rtTickPerSecond : Nat := 100

/-- `rt_tick_from_millisecond`. -/
def rtTickFromMillisecond (ms : BitVec 32) : Nat := add32 (mul32 rtTickPerSecond ms.toNat) 999 / 1000

namespace SysArch

/-- The waiting time in ticks. -/
def waitTicks (timeout : BitVec 32) : Int :=
  -- RT_WAITING_FOREVER
  if timeout = 0 then -1
  else if timeout.toNat < 1000 / rtTickPerSecond then 1
  else (timeout.toNat / (1000 / rtTickPerSecond) : Nat)

/-- `SYS_ARCH_TIMEOUT`. -/
def sysArchTimeout : Nat := 0xffffffff

/-- What both functions return, for the ticks at the beginning and at the end of the wait. -/
def returnValue (tick now : Nat) (ret : Err) : Nat :=
  if ret = .etimeout then sysArchTimeout
  else
    let tick := mul32 (sub32 now tick) (1000 / rtTickPerSecond)
    if tick = 0 then 1 else tick

/-- A wait with a timeout in milliseconds that began at the tick `first`, without the wrap-around. -/
structure NetWait where
  first : Nat
  timeout : BitVec 32
  deriving DecidableEq

/-- A wait that has returned. -/
structure Return where
  wait : NetWait
  finished : Nat
  value : Nat
  deriving DecidableEq

structure Sys where
  ipc : IpcRun.Sys
  now : Nat
  /-- The wait in which the thread is suspended. -/
  wait : Option NetWait
  returns : List Return

/-- The waits, and every other event. A wait with the timeout 0 is a call that waits for ever. -/
inductive Event where
  | semWait (n : Nat) (timeout : BitVec 32)
  | mboxFetch (n : Nat) (timeout : BitVec 32)
  | ipc (e : IpcRun.Event)

/-- The return value of the kernel call, unless the thread is suspended. -/
def returned : Outcome Err → Option Err
  | .returned err => some err
  | .blocked _ _ => none

/-- How the suspended call of a thread goes on. -/
def result (s : IpcRun.Sys) (t : Tid) : IpcRun.Call → Option Err
  | .semTake _ => some (Sem.rtSemTakeReturn s.kernel t)
  | call => (outcomeOf s t call).bind returned

def Sys.settle (s : Sys) (c : NetWait) : Option Err → Sys
  | none => { s with wait := some c }
  | some ret =>
    { s with
      wait := none
      returns := s.returns ++ [⟨c, s.now, returnValue (c.first % size32) (s.now % size32) ret⟩] }

def step (t : Tid) (s : Sys) : Event → Option Sys
  | .semWait n timeout => do
    rtAssert (timeout ≠ 0)
    let (_, _, r) ← Sem.rtSemTake s.ipc.kernel (s.ipc.sem n) t (waitTicks timeout)
    let ipc ← IpcRun.step s.ipc (.semTake n t (waitTicks timeout))
    return { s with ipc }.settle ⟨s.now, timeout⟩ r
  | .mboxFetch n timeout => do
    rtAssert (timeout ≠ 0)
    let (_, _, r) ← Mailbox.rtMbRecv s.ipc.kernel (s.ipc.mb n) t (waitTicks timeout)
    let ipc ← IpcRun.step s.ipc (.mbRecv n t (waitTicks timeout))
    return { s with ipc }.settle ⟨s.now, timeout⟩ (returned (r.map Mailbox.Received.result))
  | .ipc e => do
    rtAssert (IpcRun.proper s.ipc e = true)
    let ipc ← IpcRun.step s.ipc e
    let s' := { s with ipc, now := nextTick s.now e }
    match s.wait, e with
    | some c, .resume u =>
      if u = t then do
        let w ← s.ipc.wait t
        return s'.settle c (result s.ipc t w.call)
      else
        return s'
    | _, _ => return s'

/-- Nobody waits, and the tick may be any. -/
structure Initial (s : Sys) : Prop where
  ipc : IpcRun.Initial s.ipc
  tick : s.ipc.kernel.threadTimer.rtTick < size32
  now : s.now = s.ipc.kernel.threadTimer.rtTick
  wait : s.wait = none
  returns : s.returns = []

/-! ## The arithmetic -/

theorem waitTicks_pos {timeout : BitVec 32} (h : timeout ≠ 0) : 0 < waitTicks timeout := by
  unfold waitTicks rtTickPerSecond
  split
  · contradiction
  · split <;> omega

theorem eq_etimeout {tick now : Nat} {ret : Err} (h : returnValue tick now ret = sysArchTimeout) :
    ret = .etimeout := by
  by_contra hne
  -- the elapsed time is a multiple of 10, even when it wraps
  have heven : mul32 (sub32 now tick) (1000 / rtTickPerSecond) % 2 = 0 := by
    unfold mul32 rtTickPerSecond size32
    omega
  simp only [returnValue, if_neg hne, sysArchTimeout] at h
  split at h <;> omega

theorem le_rtTickFromMillisecond_iff (ms : BitVec 32) :
    ms.toNat ≤ rtTickFromMillisecond ms * 10 ↔ 100 * ms.toNat + 999 < 2 ^ 32 := by
  unfold rtTickFromMillisecond add32 mul32 rtTickPerSecond size32
  omega

variable {k : Kernel} {t : Tid} {timeout : Int} {last now d : Nat}

/-- The time that is left is never too short. -/
theorem le_remainingTime (hpos : 0 < timeout) (hshort : timeout < (rtTickMax / 2 : Nat))
    (hlast : last ≤ now) (htick : k.threadTimer.rtTick = now % size32) :
    0 ≤ remainingTime k timeout (last % size32) ∧
      (last : Int) + timeout ≤ now + remainingTime k timeout (last % size32) := by
  obtain ⟨δ, hδ, hle⟩ : ∃ δ, sub32 k.threadTimer.rtTick (last % size32) = δ ∧ δ ≤ now - last := by
    refine ⟨_, rfl, ?_⟩
    rw [htick]
    unfold sub32 size32
    omega
  simp only [remainingTime, if_pos hpos, hδ, Int.bmod]
  unfold rtTickMax at hshort
  split <;> split <;> omega

/-! ## Runs -/

variable {s s' : Sys} {ipc : IpcRun.Sys} {c : NetWait} {e : Event}

/-- The tick up to which a wait lasts at least. -/
def NetWait.until (c : NetWait) : Nat := c.first + (waitTicks c.timeout).toNat

/-- The thread is in a wait that does not time out before the tick `d`. -/
def InWait (ipc : IpcRun.Sys) (now : Nat) (t : Tid) (d : Nat) : Prop :=
  ∃ w c timeout tickDelta last, ipc.wait t = some w ∧
    ((∃ n, w.call = .semTake n) ∨ locals w.call = some (timeout, tickDelta)) ∧
    Waiting ipc.kernel now t c timeout tickDelta last ∧ d ≤ c.deadline

structure Inv (t : Tid) (s : Sys) : Prop where
  ipc : IpcRun.Inv s.ipc
  onTime : OnTime s.ipc.kernel.threadTimer s.now
  wait : ∀ c, s.wait = some c → InWait s.ipc s.now t c.until
  returns : ∀ r ∈ s.returns, r.value = sysArchTimeout → r.wait.until ≤ r.finished

theorem Initial.inv (h : Initial s) : Inv t s := by
  have hinit : TimedWait.Initial ⟨s.ipc, s.now, fun _ => none, []⟩ := ⟨h.ipc, h.tick, h.now, fun _ => rfl, rfl⟩
  refine ⟨hinit.inv.ipc, hinit.inv.onTime, fun c hc => ?_, ?_⟩
  · cases h.wait.symm.trans hc
  · simp [h.returns]

theorem Inv.settle {r : Option Err} (hipc : IpcRun.Inv s.ipc)
    (hon : OnTime s.ipc.kernel.threadTimer s.now)
    (hreturns : ∀ r ∈ s.returns, r.value = sysArchTimeout → r.wait.until ≤ r.finished)
    (htimeout : r = some .etimeout → c.until ≤ s.now) (hwait : r = none → InWait s.ipc s.now t c.until) :
    Inv t (s.settle c r) := by
  cases r with
  | none =>
    refine ⟨hipc, hon, fun c' hc' => ?_, hreturns⟩
    cases hc'
    exact hwait rfl
  | some ret =>
    refine ⟨hipc, hon, nofun, fun r hr hvalue => ?_⟩
    rcases List.mem_append.mp hr with hr | hr
    · exact hreturns r hr hvalue
    · obtain rfl := List.mem_singleton.mp hr
      exact htimeout (congrArg some (eq_etimeout hvalue))

/-- The thread suspends itself for the time `timeout` from now on. -/
theorem inWait_of_block {w : Wait IpcRun.Call} {tickDelta : Nat} {hd : ListHead} {flag : IpcFlag} {k : Kernel}
    {wait : Tid → Option (Wait IpcRun.Call)} (hinv : WaitTimer.Inv k wait) (hon : OnTime k.threadTimer now)
    (hready : (k.thread t).stat = .ready) (hpos : 0 < timeout) (hd' : (d : Int) ≤ now + timeout)
    (hk : ((k.setError t .eok).rtIpcListSuspend hd t flag).startThreadTimer
      t timeout = some ipc.kernel) (htick : 0 < timeout → tickDelta =
      ((k.setError t .eok).rtIpcListSuspend hd t flag).threadTimer.rtTick)
    (hw : ipc.wait t = some w)
    (hcall : (∃ n, w.call = .semTake n) ∨ locals w.call = some (timeout, tickDelta)) :
    InWait ipc now t d := by
  have hdeadline : (now : Int) + timeout = (⟨now, timeout.toNat, false⟩ : InCall).deadline := by
    simp only [InCall.deadline]
    omega
  refine ⟨w, _, timeout, tickDelta, now, hw, hcall, waiting_of_block hinv hon hready rfl hpos hdeadline hk htick, ?_⟩
  omega

theorem Inv.semWait {n : Nat} {timeout : BitVec 32} (h : Inv t s)
    (hs : step t s (.semWait n timeout) = some s') : Inv t s' := by
  obtain ⟨hne, hs⟩ := rtAssert_bind_eq_some.mp hs
  obtain ⟨⟨k, sem, r⟩, hr, hs⟩ := bind_eq_some_iff.mp hs
  obtain ⟨ipc, hipc, ⟨⟩⟩ := bind_eq_some_iff.mp hs
  have hpos := waitTicks_pos hne
  obtain ⟨hon, -⟩ := step_waiting h.ipc h.onTime rfl hipc
  refine .settle (h.ipc.step hipc) hon h.returns (fun hret => ?_) fun hret => ?_
  · subst hret
    rcases Sem.rtSemTake_cases hr with ⟨-, ⟨⟩⟩ | ⟨-, hzero, -⟩ | ⟨-, -, _, -, ⟨⟩⟩
    exact absurd hzero hpos.ne'
  · subst hret
    obtain ⟨hcall, hipc⟩ := rtAssert_bind_eq_some.mp hipc
    simp only [hr, Option.bind_eq_bind, Option.bind_some] at hipc
    cases hipc
    rcases Sem.rtSemTake_cases hr with ⟨-, ⟨⟩⟩ | ⟨-, -, ⟨⟩⟩ | ⟨-, -, _, hblock, ⟨⟩⟩
    exact inWait_of_block h.ipc.wait h.onTime (hcall.resolve_left hpos.ne').1 hpos
      (by simp only [NetWait.until]; omega) hblock (fun _ => rfl) (Function.update_self ..) (.inl ⟨n, rfl⟩)

theorem Inv.mboxFetch {n : Nat} {timeout : BitVec 32} (h : Inv t s)
    (hs : step t s (.mboxFetch n timeout) = some s') : Inv t s' := by
  obtain ⟨hne, hs⟩ := rtAssert_bind_eq_some.mp hs
  obtain ⟨⟨k, mb, r⟩, hr, hs⟩ := bind_eq_some_iff.mp hs
  obtain ⟨ipc, hipc, ⟨⟩⟩ := bind_eq_some_iff.mp hs
  have hpos := waitTicks_pos hne
  obtain ⟨hon, -⟩ := step_waiting h.ipc h.onTime rfl hipc
  have hinv := h.ipc.step hipc
  obtain ⟨hcall, hipc⟩ := rtAssert_bind_eq_some.mp hipc
  simp only [hr, Option.map_some] at hipc
  obtain rfl := Option.some.inj hipc
  obtain ⟨hkernel, hleft⟩ := left_afterMbRecv (t := t) s.ipc n k mb r
  rw [Mailbox.rtMbRecv, if_neg fun hand => hpos.ne' hand.2] at hr
  have hlooks := (IpcRun.section_rtMbRecvLoop (fun _ => True) (fun _ => True) (fun _ _ => trivial) hr).1
  refine .settle hinv hon h.returns (fun hret => ?_) fun hret => ?_
  · generalize r.map Mailbox.Received.result = out at hlooks hret
    cases hlooks with
    | found => cases hret
    | gaveUp _ hzero => exact absurd hzero hpos.ne'
    | waits => cases hret
  · generalize r.map Mailbox.Received.result = out at hlooks hret hleft
    cases hlooks with
    | found => cases hret
    | gaveUp => cases hret
    | waits _ _ hk htick =>
      obtain ⟨w, hw, hlocals⟩ := hleft _ _ rfl
      exact inWait_of_block h.ipc.wait h.onTime (hcall.resolve_left hpos.ne').1 hpos
        (by simp only [NetWait.until]; omega) (hk.trans (congrArg some hkernel.symm)) htick hw (.inr hlocals)

theorem result_eq {x : Int × Nat} {call : IpcRun.Call} (h : locals call = some x) (s : IpcRun.Sys) (t : Tid) :
    result s t call = (outcomeOf s t call).bind returned := by
  cases call with
  | semTake | mutexTake | eventRecv | sleep => cases h
  | _ => rfl

/-- The suspended wait goes on. -/
theorem Inv.goOn {w : Wait IpcRun.Call} (h : Inv t s) (hc : s.wait = some c)
    (hipc : IpcRun.step s.ipc (.resume t) = some ipc) (hw : s.ipc.wait t = some w) :
    Inv t (Sys.settle { s with ipc } c (result s.ipc t w.call)) := by
  obtain ⟨hon, -⟩ := step_waiting h.ipc h.onTime rfl hipc
  have hinv := h.ipc.step hipc
  obtain ⟨w', c', timeout, tickDelta, last, hw', hcall, hwaiting, hd⟩ := h.wait c hc
  obtain rfl : w = w' := Option.some.inj (hw.symm.trans hw')
  obtain ⟨hready, hgo⟩ := rtAssert_bind_eq_some.mp hipc
  simp only [hw, Option.bind_eq_bind, Option.bind_some] at hgo
  obtain ⟨-, hawake⟩ := hwaiting.awake (by simp [hready])
  rcases hcall with ⟨n, hcall⟩ | hlocals
  · rw [hcall]
    exact .settle hinv hon h.returns (fun hret => hd.trans (hawake (Option.some.inj hret))) nofun
  rw [result_eq hlocals]
  obtain ⟨r, hr, hleft, hcases⟩ := outcomeOf_cases hlocals hgo
  rw [hr]
  rcases hcases with ⟨-, rfl⟩ | ⟨-, hlooks⟩
  · exact .settle hinv hon h.returns (fun hret => hd.trans (hawake (Option.some.inj hret))) nofun
  -- the thread looks again, with the time that is left
  obtain ⟨hnonneg, hle⟩ :=
    le_remainingTime hwaiting.pos hwaiting.short hwaiting.last_le h.onTime.rtTick
  have hdeadline := hwaiting.deadline
  rw [← hwaiting.tickDelta] at hnonneg hle
  refine .settle hinv hon h.returns (fun hret => ?_) fun hret => ?_
  · cases hlooks with
    | found => cases hret
    | gaveUp _ hzero =>
      change c.until ≤ s.now
      omega
    | waits => cases hret
  · cases hlooks with
    | found => cases hret
    | gaveUp => cases hret
    | waits _ hzero hk htick =>
      obtain ⟨w', hw', hlocals'⟩ := hleft _ _ rfl
      have hd' : (c.until : Int) ≤ s.now + remainingTime s.ipc.kernel timeout tickDelta := by omega
      exact inWait_of_block h.ipc.wait h.onTime hready (by omega) hd' hk htick hw' (.inr hlocals')

theorem Inv.step (h : Inv t s) (hs : step t s e = some s') : Inv t s' := by
  cases e with
  | semWait n timeout => exact h.semWait hs
  | mboxFetch n timeout => exact h.mboxFetch hs
  | ipc e =>
    obtain ⟨hproper, hrest⟩ := rtAssert_bind_eq_some.mp hs
    obtain ⟨ipc, hipc, hafter⟩ := bind_eq_some_iff.mp hrest
    obtain ⟨hon, hwaits⟩ := step_waiting h.ipc h.onTime hproper hipc
    -- any step in which the thread does not go on with its wait
    have hother (hne : ∀ c, s.wait = some c → e ≠ .resume t) :
        Inv t { s with ipc, now := nextTick s.now e } := by
      refine ⟨h.ipc.step hipc, hon, fun c hc => ?_, h.returns⟩
      obtain ⟨w, c', timeout, tickDelta, last, hw, hcall, hwaiting, hd⟩ := h.wait c hc
      obtain ⟨hsame, hwaiting⟩ := hwaits t c' _ _ _ (by simp [hw]) (hne c hc) hwaiting
      exact ⟨w, c', timeout, tickDelta, last, hsame.trans hw, hcall, hwaiting, hd⟩
    split at hafter
    next c u hc =>
      split at hafter
      next heq =>
        subst heq
        obtain ⟨w, hw, ⟨⟩⟩ := bind_eq_some_iff.mp hafter
        exact h.goOn hc hipc hw
      next hne =>
        cases hafter
        refine hother fun _ _ heq => hne ?_
        cases heq
        rfl
    next hnot =>
      cases hafter
      exact hother fun c hc heq => hnot c t hc heq

/-- In every run, a wait for less than 10 ms or for whole ticks that returns `SYS_ARCH_TIMEOUT` has lasted
at least as long as asked. The ticks for `ms` milliseconds are enough exactly if nothing wraps. -/
theorem network_waits_last {s0 : Sys} {es : List Event} (hinit : Initial s0)
    (hrun : run (step t) s0 es = some s) :
    (∀ r ∈ s.returns, r.wait.timeout.toNat < 10 ∨ 10 ∣ r.wait.timeout.toNat → r.value = sysArchTimeout →
      r.wait.timeout.toNat ≤ (r.finished - r.wait.first) * 10) ∧
    ∀ ms : BitVec 32, ms.toNat ≤ rtTickFromMillisecond ms * 10 ↔ 100 * ms.toNat + 999 < 2 ^ 32 := by
  have hinv : Inv t s := run_invariant (fun _ _ _ h hs => h.step hs) hinit.inv hrun
  refine ⟨fun r hr htimeout hvalue => ?_, le_rtTickFromMillisecond_iff⟩
  have hticks : r.wait.timeout.toNat ≤ (waitTicks r.wait.timeout).toNat * 10 := by
    unfold waitTicks rtTickPerSecond
    split
    next hzero => simp [hzero]
    next => split <;> omega
  have hlast : r.wait.first + (waitTicks r.wait.timeout).toNat ≤ r.finished := hinv.returns r hr hvalue
  omega

/-- Two ready threads and an empty mailbox. -/
def start : Sys := ⟨IpcRun.unused, 0, none, []⟩

/-- Thread 0 fetches from the empty mailbox for 20 ms, while two ticks pass. -/
theorem network_waits_last_twoTicks :
    ∃ s, run (step 0) start [.mboxFetch 0 20, .ipc .tick, .ipc .tick, .ipc (.resume 0)] = some s ∧
      s.returns = [⟨⟨0, 20⟩, 2, sysArchTimeout⟩] ∧
      ∀ r ∈ s.returns, r.wait.timeout.toNat < 10 ∨ 10 ∣ r.wait.timeout.toNat → r.value = sysArchTimeout →
        r.wait.timeout.toNat ≤ (r.finished - r.wait.first) * 10 := by
  have hinit : Initial start := ⟨IpcRun.unused_initial, by decide, rfl, rfl, rfl⟩
  exact run_exists (Q := fun s => s.returns = [⟨⟨0, 20⟩, 2, sysArchTimeout⟩]) (by decide +kernel)
    fun s hrun hreturns => ⟨hreturns, (network_waits_last hinit hrun).1⟩

/-- A wait of 15 ms times out after one tick, and the ticks for 42949664 ms wrap to none. -/
theorem network_wait_too_short :
    (∃ s, run (step 0) start [.mboxFetch 0 15, .ipc .tick, .ipc (.resume 0)] = some s ∧
      s.returns = [⟨⟨0, 15⟩, 1, sysArchTimeout⟩] ∧ ¬ 15 ≤ (1 - 0) * 10) ∧
    rtTickFromMillisecond 42949664 = 0 :=
  ⟨run_exists (by decide +kernel) fun _ _ => id, by decide⟩

end SysArch

end RtThread
