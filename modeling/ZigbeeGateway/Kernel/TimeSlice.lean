-- SUMMARY: rt_tick_increase and time slices: round robin.
import ZigbeeGateway.Kernel.Scheduler
import ZigbeeGateway.Lib.Loop
import ZigbeeGateway.Lib.RoundRobin

/-!
# Time slices

`rt_tick_increase` takes a tick from `remaining_tick` of the running thread. At zero the thread gets
`init_tick` again and yields, which moves it to the end of the ready list of its priority and schedules
its first thread. After that the timers are checked.

With nothing else going on, the ready list of the highest priority is the queue of a round robin: the
running thread is its first member, wherever it stands in the list when the ticks begin.
-/

namespace RtThread.TimeSlice

open Run Word Function

/-- The kernel, and `remaining_tick` and `init_tick` of every thread. -/
structure Sys where
  kernel : Kernel
  remainingTick : Tid → Nat
  initTick : Tid → Nat

/-- The first timer of the list is due. -/
def timerDue (timers : Timers Tid) : Bool :=
  timers.timerList.head?.any fun t => sub32 timers.rtTick (timers.timer t).timeoutTick < rtTickMax / 2

/-- A round of `rt_timer_check`: the timer of a thread expires. -/
def fireFirst (k : Kernel) : Option Kernel :=
  k.threadTimer.timerList.head?.bind fun t => Scheduler.step k (.timeout t)

/-- `rt_timer_check`. The timers of threads are one-shot timers, so every round leaves one less. -/
def rtTimerCheck (k : Kernel) : Option Kernel :=
  Loop.loop (fun k => timerDue k.threadTimer) fireFirst k.threadTimer.timerList.length k

/-- `rt_thread_yield` with its `rt_schedule`. -/
def rtThreadYield (k : Kernel) (t : Tid) : Option Kernel :=
  let (k, reschedule) := k.rtThreadYield t
  if reschedule then k.rtSchedule else some k

/-- The time slice of the running thread is checked. -/
def checkTimeSlice (s : Sys) (t : Tid) : Option Sys :=
  let s := { s with remainingTick := update s.remainingTick t (sub32 (s.remainingTick t) 1) }
  if s.remainingTick t = 0 then
    let s := { s with remainingTick := update s.remainingTick t (s.initTick t) }
    (rtThreadYield s.kernel t).map fun k => { s with kernel := k }
  else
    some s

/-- The global tick is increased. -/
def nextTick (s : Sys) : Sys :=
  { s with
    kernel := { s.kernel with
      threadTimer := { s.kernel.threadTimer with rtTick := add32 s.kernel.threadTimer.rtTick 1 } } }

/-- `rt_tick_increase`. -/
def rtTickIncrease (s : Sys) : Option Sys := do
  let thread ← s.kernel.rtCurrentThread
  let s ← checkTimeSlice (nextTick s) thread
  let k ← rtTimerCheck s.kernel
  return { s with kernel := k }

inductive Event where
  | tick

def step (s : Sys) : Event → Option Sys
  | .tick => rtTickIncrease s

/-- No timer expires at the tick. -/
def NoTimerDue (s : Sys) : Event → Prop
  | .tick => timerDue (nextTick s).kernel.threadTimer = false

/-- Two or more ready threads share the highest priority `p`, and `c` of them runs. The scheduler is not
locked. -/
structure Rotating (s : Sys) (p : Nat) (c : Tid) : Prop where
  wf : s.kernel.WF
  unlocked : s.kernel.rtSchedulerLockNest = 0
  current : s.kernel.rtCurrentThread = some c
  mem : c ∈ s.kernel.tlist (.priorityTable p)
  two : 2 ≤ (s.kernel.tlist (.priorityTable p)).length
  highest : ∀ q < p, s.kernel.tlist (.priorityTable q) = []
  remainingTick : ∀ t ∈ s.kernel.tlist (.priorityTable p), 0 < s.remainingTick t ∧ s.remainingTick t < size32
  initTick : ∀ t ∈ s.kernel.tlist (.priorityTable p), 0 < s.initTick t ∧ s.initTick t < size32

/-- The running thread and the others in the order of the ready list. -/
def order (s : Sys) (p : Nat) (c : Tid) : List Tid := c :: (s.kernel.tlist (.priorityTable p)).erase c

/-- The round robin of the ready threads. -/
def rotation (s : Sys) (p : Nat) (c : Tid) : RoundRobin.State Tid := ⟨order s p c, s.remainingTick⟩

/-! ## A tick -/

variable {s s' : Sys} {p : Nat} {c : Tid}

theorem rtTimerCheck_of_not_due {k : Kernel} (h : timerDue k.threadTimer = false) : rtTimerCheck k = some k := by
  unfold rtTimerCheck
  cases k.threadTimer.timerList.length <;> simp [Loop.loop, h]

theorem checkTimeSlice_of_ne (hpos : 0 < s.remainingTick c) (hlt : s.remainingTick c < size32)
    (hne : s.remainingTick c ≠ 1) :
    checkTimeSlice s c =
      some { s with remainingTick := update s.remainingTick c (s.remainingTick c - 1) } := by
  have hsub : sub32 (s.remainingTick c) 1 = s.remainingTick c - 1 := sub32_eq hpos hlt
  unfold checkTimeSlice
  dsimp only
  rw [hsub]
  refine if_neg ?_
  rw [update_self]
  omega

theorem checkTimeSlice_of_eq (hone : s.remainingTick c = 1) :
    checkTimeSlice s c = (rtThreadYield s.kernel c).map fun k =>
      { s with kernel := k, remainingTick := update s.remainingTick c (s.initTick c) } := by
  unfold checkTimeSlice
  dsimp only
  rw [hone, update_idem]
  exact if_pos (update_self ..)

/-- A tick at which no timer expires is the check of the time slice. -/
theorem step_eq (hcurrent : s.kernel.rtCurrentThread = some c) (hdue : NoTimerDue s .tick)
    (hcheck : checkTimeSlice (nextTick s) c = some s')
    (htimer : s'.kernel.threadTimer = (nextTick s).kernel.threadTimer) : step s .tick = some s' := by
  have hdue' : timerDue s'.kernel.threadTimer = false := by
    rw [htimer]
    exact hdue
  unfold step rtTickIncrease
  rw [hcurrent, Option.bind_eq_bind, Option.bind_some, hcheck, Option.bind_eq_bind, Option.bind_some,
    rtTimerCheck_of_not_due hdue']
  rfl

namespace Rotating

variable (h : Rotating s p c)

include h

theorem perm : (order s p c).Perm (s.kernel.tlist (.priorityTable p)) :=
  (List.perm_cons_erase h.mem).symm

theorem holds : (s.kernel.thread c).stat = .ready ∧ (s.kernel.thread c).currentPriority = p :=
  h.wf.linked h.mem

theorem nodup : (order s p c).Nodup :=
  h.perm.nodup_iff.mpr (h.wf.exclusive.nodup _)

/-- The list after the running thread has been moved, and the thread that the scheduler takes. -/
theorem yielded {d : Tid} {rest : List Tid}
    (hrest : (s.kernel.tlist (.priorityTable p)).erase c = d :: rest) :
    ∃ k, s.kernel.rtThreadYield c = (k, true) ∧ k.WF ∧ k.tlist (.priorityTable p) = d :: rest ++ [c] ∧
      (∀ q < p, k.tlist (.priorityTable q) = []) ∧ k.toThread = some (p, d) ∧
      k = (s.kernel.rtListRemove c).rtListInsertBefore (.priorityTable p) c := by
  obtain ⟨hstat, hprio⟩ := h.holds
  have hyield : s.kernel.rtThreadYield c =
      ((s.kernel.rtListRemove c).rtListInsertBefore (.priorityTable p) c, true) := by
    unfold Kernel.rtThreadYield
    rw [hprio, if_pos ⟨hstat, h.two⟩]
  have hwf := h.wf.rtThreadYield c
  rw [hyield] at hwf
  obtain ⟨k, hk⟩ : ∃ k, k = (s.kernel.rtListRemove c).rtListInsertBefore (.priorityTable p) c := ⟨_, rfl⟩
  rw [← hk] at hyield hwf
  have htlist : k.tlist = Lanes.put (Lanes.remove s.kernel.tlist c) (.priorityTable p)
      (Lanes.remove s.kernel.tlist c (.priorityTable p) ++ [c]) := by
    rw [hk]
    rfl
  have hlist : k.tlist (.priorityTable p) = d :: rest ++ [c] := by
    rw [htlist, Lanes.put_same, Lanes.remove, hrest]
  have hhigher : ∀ q < p, k.tlist (.priorityTable q) = [] := by
    intro q hq
    rw [htlist, Lanes.put_of_ne _ _ (by simpa using hq.ne), Lanes.remove, h.highest q hq, List.erase_nil]
  have hthread : k.thread = s.kernel.thread := by
    rw [hk]
    rfl
  obtain ⟨p', t, -, hto, ⟨rest', hfirst⟩, hbelow⟩ :=
    Scheduler.toThread_of_ready (u := c) hwf (by rw [hthread]; exact hstat)
  -- the first list that is not empty is the one of `p`
  have hp : p' = p := by
    rcases Nat.lt_trichotomy p' p with hlt | heq | hgt
    · rw [hhigher p' hlt] at hfirst
      cases hfirst
    · exact heq
    · rw [hbelow p hgt] at hlist
      cases hlist
  subst hp
  obtain rfl : d = t := by
    rw [hlist] at hfirst
    exact (List.cons.inj hfirst).1
  exact ⟨k, hyield, hwf, hlist, hhigher, hto, hk⟩

/-- The running thread yields, and the next one of the list runs. -/
theorem rtThreadYield {d : Tid} {rest : List Tid}
    (hrest : (s.kernel.tlist (.priorityTable p)).erase c = d :: rest) :
    ∃ k, TimeSlice.rtThreadYield s.kernel c = some k ∧ k.threadTimer = s.kernel.threadTimer ∧
      Rotating { s with kernel := k } p d ∧ order { s with kernel := k } p d = d :: rest ++ [c] := by
  obtain ⟨k, hyield, hwf, hlist, hhigher, hto, hk⟩ := h.yielded hrest
  have hne : some d ≠ k.rtCurrentThread := by
    have hnodup := h.nodup
    rw [order, hrest] at hnodup
    have hcurrent : k.rtCurrentThread = some c := by
      rw [hk]
      exact h.current
    rw [hcurrent]
    rintro ⟨⟩
    exact (List.nodup_cons.mp hnodup).1 List.mem_cons_self
  have hlock : k.rtSchedulerLockNest = 0 := by
    rw [hk]
    exact h.unlocked
  have hschedule : k.rtSchedule = some { k with rtCurrentPriority := p, rtCurrentThread := some d } := by
    rw [Kernel.rtSchedule, if_pos hlock, hto]
    exact if_pos hne
  -- the threads of the list are the same ones as before
  have hmem : ∀ t, t ∈ k.tlist (.priorityTable p) → t ∈ s.kernel.tlist (.priorityTable p) := by
    intro t ht
    rw [hlist, ← hrest] at ht
    rcases List.mem_append.mp ht with hother | hlast
    · exact List.mem_of_mem_erase hother
    · exact List.mem_singleton.mp hlast ▸ h.mem
  refine ⟨{ k with rtCurrentPriority := p, rtCurrentThread := some d }, ?_, ?_, ?_, ?_⟩
  · unfold TimeSlice.rtThreadYield
    rw [hyield]
    exact hschedule
  · rw [hk]
    rfl
  · constructor
    · exact hwf.congr rfl rfl rfl
    · exact hlock
    · rfl
    · exact hlist ▸ List.mem_cons_self
    · have hlength := congrArg List.length hlist
      simp at hlength
      exact hlength ▸ (by omega)
    · exact hhigher
    · exact fun t ht => h.remainingTick t (hmem t ht)
    · exact fun t ht => h.initTick t (hmem t ht)
  · rw [order]
    rw [hlist, List.cons_append, List.erase_cons_head]

theorem exists_next : ∃ d rest, (s.kernel.tlist (.priorityTable p)).erase c = d :: rest := by
  refine List.exists_cons_of_ne_nil fun hnil => ?_
  have hlength := List.length_erase_of_mem h.mem
  rw [hnil, List.length_nil] at hlength
  have htwo := h.two
  omega

/-- A new value for the running thread. -/
theorem setRemaining {n : Nat} (hn : 0 < n ∧ n < size32) :
    Rotating { nextTick s with remainingTick := update s.remainingTick c n } p c := by
  refine ⟨h.wf.congr rfl rfl rfl, h.unlocked, h.current, h.mem, h.two, h.highest, fun t ht => ?_, h.initTick⟩
  dsimp only
  rcases eq_or_ne t c with rfl | hne
  · rwa [update_self]
  · rw [update_of_ne hne]
    exact h.remainingTick t ht

/-- A tick is a tick of the round robin. -/
theorem step (hdue : NoTimerDue s .tick) :
    ∃ s' d, TimeSlice.step s .tick = some s' ∧ Rotating s' p d ∧ s'.initTick = s.initTick ∧
      rotation s' p d = RoundRobin.tick s.initTick (rotation s p c) := by
  obtain ⟨hpos, hlt⟩ := h.remainingTick c h.mem
  by_cases hone : s.remainingTick c = 1
  · obtain ⟨d, rest, hrest⟩ := h.exists_next
    obtain ⟨k, hyield, htimer, hrot, horder⟩ := (h.setRemaining (h.initTick c h.mem)).rtThreadYield hrest
    have hcheck := checkTimeSlice_of_eq (s := nextTick s) hone
    rw [hyield, Option.map_some] at hcheck
    refine ⟨_, d, step_eq h.current hdue hcheck htimer, hrot, rfl, ?_⟩
    have hbefore : rotation s p c = ⟨c :: d :: rest, s.remainingTick⟩ := by rw [rotation, order, hrest]
    rw [hbefore, RoundRobin.tick_of_eq hone]
    exact congrArg (RoundRobin.State.mk · _) horder
  · have hcheck := checkTimeSlice_of_ne (s := nextTick s) hpos hlt hone
    have hless : 0 < s.remainingTick c - 1 ∧ s.remainingTick c - 1 < size32 :=
      ⟨by omega, (Nat.sub_le _ 1).trans_lt hlt⟩
    refine ⟨_, c, step_eq h.current hdue hcheck rfl, h.setRemaining hless, rfl, ?_⟩
    rw [rotation, rotation, order, order, RoundRobin.tick_of_ne hone]
    rfl

end Rotating

/-! ## Runs -/

theorem ticks (h : Rotating s p c) (n : Nat) (hquiet : Along step NoTimerDue s (List.replicate n .tick)) :
    ∃ s' d, run step s (List.replicate n .tick) = some s' ∧ Rotating s' p d ∧
      rotation s' p d = (RoundRobin.tick s.initTick)^[n] (rotation s p c) := by
  induction n generalizing s c with
  | zero => exact ⟨s, c, rfl, h, rfl⟩
  | succ n ih =>
    obtain ⟨s1, d1, hstep, hrot, hinit, htick⟩ := h.step hquiet.1
    obtain ⟨s', d, hrun, hrot', hticks⟩ := ih hrot (hquiet.2 s1 hstep)
    refine ⟨s', d, run_cons.mpr ⟨s1, hstep, hrun⟩, hrot', ?_⟩
    rw [hticks, hinit, htick, iterate_succ_apply]

/-- As long as nothing happens but ticks, the ready threads of the highest priority run in the order of
their list, around and around: the turn `j` belongs to the thread `j` of `order`, counted modulo their
number. It lasts as many ticks as the thread has left when the turn begins, which from its second turn
on is its whole slice. -/
theorem round_robin (h : Rotating s p c) (j r : Nat)
    (hr : r < RoundRobin.turnLength s.initTick (rotation s p c) j) (hquiet : Along step NoTimerDue s
      (List.replicate (RoundRobin.turnStart s.initTick (rotation s p c) j + r) .tick)) :
    ∃ s' t, run step s (List.replicate (RoundRobin.turnStart s.initTick (rotation s p c) j + r) .tick) = some s' ∧
      (order s p c)[j % (order s p c).length]? = some t ∧ s'.kernel.rtCurrentThread = some t ∧
      s'.remainingTick t = RoundRobin.turnLength s.initTick (rotation s p c) j - r ∧
      ((order s p c).length ≤ j → RoundRobin.turnLength s.initTick (rotation s p c) j = s.initTick t) := by
  obtain ⟨s', d, hrun, hrot, hticks⟩ := ticks h _ hquiet
  have hmem : ∀ t ∈ order s p c, t ∈ s.kernel.tlist (.priorityTable p) := fun t => h.perm.mem_iff.mp
  obtain ⟨t, rest, hturn, hqueue, hleft⟩ := RoundRobin.ticks_eq h.nodup
    (fun t ht => (h.remainingTick t (hmem t ht)).1) (fun t ht => (h.initTick t (hmem t ht)).1) hr
  have hfirst := RoundRobin.getElem?_of_rotate hturn
  have hstate : (RoundRobin.tick s.initTick)^[RoundRobin.turnStart s.initTick (rotation s p c) j + r]
      ⟨order s p c, s.remainingTick⟩ = ⟨order s' p d, s'.remainingTick⟩ := hticks.symm
  rw [rotation] at hstate
  rw [hstate] at hqueue hleft
  obtain rfl : d = t := (List.cons.inj hqueue).1
  refine ⟨s', d, hrun, hfirst, hrot.current, hleft, fun hj => ?_⟩
  unfold RoundRobin.turnLength rotation
  rw [hfirst, Option.elim_some, if_neg (Nat.not_lt.mpr hj)]

/-- Two threads of the priority 3 with slices of two and three ticks; the first one runs. -/
def twoSlices : Sys where
  kernel := { Kernel.bootThreads (fun _ => 3) [1, 2] with rtCurrentThread := some 1 }
  remainingTick := fun t => if t = 1 then 2 else 3
  initTick := fun t => if t = 1 then 2 else 3

theorem rotating_twoSlices : Rotating twoSlices 3 1 := by
  constructor
  · exact (Kernel.bootThreads_wf _ _).congr rfl rfl rfl
  all_goals decide +kernel

/-- The fourth turn, after 2 + 3 + 2 ticks, is the second one of thread 2. -/
theorem round_robin_twoSlices :
    ∃ s', run step twoSlices (List.replicate 8 .tick) = some s' ∧ s'.kernel.rtCurrentThread = some 2 ∧
      s'.remainingTick 2 = 2 := by
  have hcheck : ∀ s e, (!timerDue (nextTick s).kernel.threadTimer) = true → NoTimerDue s e := by
    rintro s ⟨⟩ h
    exact (Bool.not_eq_true' _).mp h
  have hquiet : Along step NoTimerDue twoSlices (List.replicate 8 .tick) :=
    along_of_check hcheck (by decide +kernel)
  obtain ⟨s', t, hrun, ht, hcurrent, hleft, -⟩ := round_robin rotating_twoSlices 3 1 (by decide) hquiet
  obtain rfl : 2 = t := Option.some.inj ht
  exact ⟨s', hrun, hcurrent, hleft⟩

end RtThread.TimeSlice
