-- SUMMARY: Semaphores and their accounting over every run.
import ZigbeeGateway.Lib.Run
import ZigbeeGateway.Kernel.Ipc

/-!
# Semaphores

A unit of a semaphore is either counted in `value` or handed straight to a waiter:
a release with waiters resumes one and leaves `value` alone. The history variables of
`Sys` count the releases and the granted takes, and remember how each blocked take
was ended, so that `accounting` can compare them with `value` and with the error
numbers that the calls return.
-/

namespace RtThread

open Run Function

/-- `struct rt_semaphore`; `value` is an `rt_uint16_t`. -/
structure Sem where
  parent : IpcObject
  value : Nat
  deriving DecidableEq, Repr

namespace Sem

/-- `rt_sem_init`: the initial value is an `rt_uint32_t`. -/
def rtSemInit (obj value : Nat) (flag : IpcFlag) : Sem where
  parent := { obj := obj, flag := flag }
  value := value % 65536

/-- `rt_sem_take` of thread `t` up to its call of `rt_schedule`. The result is `none` when
the thread is suspended, and the return value otherwise. -/
def rtSemTake (k : Kernel) (sem : Sem) (t : Tid) (time : Int) :
    Option (Kernel × Sem × Option Err) :=
  if 0 < sem.value then
    some (k, { sem with value := sem.value - 1 }, some .eok)
  else if time = 0 then
    some (k, sem, some .etimeout)
  else do
    let k := k.setThread t { k.thread t with error := .eok }
    let k := k.rtIpcListSuspend sem.parent.suspendThread t sem.parent.flag
    let k ← k.startThreadTimer t time
    return (k, sem, none)

/-- The end of a blocked `rt_sem_take`, when the thread runs again. -/
def rtSemTakeReturn (k : Kernel) (t : Tid) : Err := (k.thread t).error

/-- `rt_sem_trytake`. -/
def rtSemTrytake (k : Kernel) (sem : Sem) (t : Tid) : Option (Kernel × Sem × Option Err) :=
  rtSemTake k sem t 0

/-- `rt_sem_release`. -/
def rtSemRelease (k : Kernel) (sem : Sem) : Option (Kernel × Sem) :=
  if k.tlist sem.parent.suspendThread ≠ [] then do
    let k ← k.rtIpcListResume sem.parent.suspendThread
    return (k, sem)
  else
    some (k, { sem with value := (sem.value + 1) % 65536 })

/-- `rt_sem_control` with `RT_IPC_CMD_RESET`. -/
def rtSemReset (k : Kernel) (sem : Sem) (value : Nat) : Option (Kernel × Sem) := do
  let k ← k.rtIpcListResumeAll sem.parent.suspendThread
  return (k, { sem with value := value % 65536 })

/-! ## Runs -/

/-- Where a thread is in a blocking take: suspended, resumed by a release, or timed out. -/
inductive Phase where
  | idle
  | waiting
  | granted
  | expired
  deriving DecidableEq, Repr

/-- The calls, the return of a blocked take, and the expiry of a thread timer. A call that
cannot block may come from any context, a blocking one from a ready thread. -/
inductive Event where
  | take (t : Tid) (time : Int)
  | trytake (t : Tid)
  | takeReturn (t : Tid)
  | release
  | expire (t : Tid)
  deriving DecidableEq, Repr

/-- A take that returned: its return value, and whether it was granted. -/
structure Returned where
  result : Err
  granted : Bool
  deriving DecidableEq, Repr

structure Sys where
  kernel : Kernel
  sem : Sem
  phase : Tid → Phase
  /-- The number of releases and of granted takes so far, and the takes that returned. -/
  releases : Nat
  granted : Nat
  returned : List Returned

namespace Sys

def waiters (s : Sys) : List Tid := s.kernel.tlist s.sem.parent.suspendThread

/-- The result of a call of `rt_sem_take`. -/
def afterTake (s : Sys) (t : Tid) : Kernel × Sem × Option Err → Sys
  | (k, sem, none) =>
    { s with
      kernel := k
      sem := sem
      phase := update s.phase t .waiting }
  | (k, sem, some result) =>
    { s with
      kernel := k
      sem := sem
      granted := if result = .eok then s.granted + 1 else s.granted
      returned := s.returned ++ [⟨result, decide (result = .eok)⟩] }

/-- The threads that a release resumed: they were waiting and no longer are. -/
def resumed (s : Sys) (k : Kernel) : List Tid :=
  s.waiters.filter (· ∉ k.tlist s.sem.parent.suspendThread)

end Sys

def step (s : Sys) : Event → Option Sys
  | .take t time =>
    if (s.kernel.thread t).stat = .ready ∧ s.phase t = .idle then
      (rtSemTake s.kernel s.sem t time).map (s.afterTake t)
    else
      none
  | .trytake t => (rtSemTrytake s.kernel s.sem t).map (s.afterTake t)
  | .takeReturn t =>
    if (s.kernel.thread t).stat = .ready ∧ s.phase t ≠ .idle then
      some { s with
        phase := update s.phase t .idle
        returned := s.returned ++ [⟨rtSemTakeReturn s.kernel t, decide (s.phase t = .granted)⟩] }
    else
      none
  | .release => do
    let (k, sem) ← rtSemRelease s.kernel s.sem
    return { s with
      kernel := k
      sem := sem
      phase := fun u => if u ∈ s.resumed k then .granted else s.phase u
      releases := s.releases + 1
      granted := s.granted + (s.resumed k).length }
  | .expire t => do
    let k ← s.kernel.expire t
    return { s with
      kernel := k
      phase := fun u => if u = t ∧ t ∈ s.waiters then .expired else s.phase u }

/-- A semaphore initialised with `value`, among threads in any state: nobody waits yet. -/
structure Initial (s : Sys) (value : Nat) : Prop where
  wf : s.kernel.WF
  value : s.sem.value = value % 65536
  waiters : s.waiters = []
  phase : ∀ t, s.phase t = .idle
  releases : s.releases = 0
  granted : s.granted = 0
  returned : s.returned = []

/-! ## The invariant -/

/-- What the phase of a thread says about its object and about the wait list. -/
def Phase.Ok (th : Thread) (waits : Prop) : Phase → Prop
  | .idle => ¬ waits
  | .waiting => waits ∧ th.error = .eok
  | .granted => ¬ waits ∧ th.stat = .ready ∧ th.error = .eok
  | .expired => ¬ waits ∧ th.stat = .ready ∧ th.error = .etimeout

structure Inv (value : Nat) (s : Sys) : Prop where
  wf : s.kernel.WF
  range : s.sem.value < 65536
  count : (s.sem.value + s.granted) % 65536 = (value + s.releases) % 65536
  zero : s.waiters ≠ [] → s.sem.value = 0
  phase : ∀ t, (s.phase t).Ok (s.kernel.thread t) (t ∈ s.waiters)
  returned : ∀ r ∈ s.returned, r.result = if r.granted then .eok else .etimeout

theorem suspendThread_isWait (ipc : IpcObject) : ipc.suspendThread.IsWait := trivial

variable {s : Sys} {value : Nat} {t : Tid}

theorem Initial.inv (h : Initial s value) : Inv value s := by
  constructor
  · exact h.wf
  · rw [h.value]
    omega
  · rw [h.value, h.granted, h.releases]
    omega
  · exact fun hne => absurd h.waiters hne
  · intro t
    rw [h.phase t, h.waiters]
    simp [Phase.Ok]
  · simp [h.returned]

/-- The three ways through `rt_sem_take`. -/
theorem rtSemTake_cases {k : Kernel} {sem : Sem} {time : Int}
    {r : Kernel × Sem × Option Err} (hr : rtSemTake k sem t time = some r) :
    (0 < sem.value ∧ r = (k, { sem with value := sem.value - 1 }, some .eok)) ∨
    (sem.value = 0 ∧ time = 0 ∧ r = (k, sem, some .etimeout)) ∨
    (sem.value = 0 ∧ time ≠ 0 ∧ ∃ k',
      ((k.setError t .eok).rtIpcListSuspend
        sem.parent.suspendThread t sem.parent.flag).startThreadTimer t time = some k' ∧
      r = (k', sem, none)) := by
  unfold rtSemTake at hr
  split at hr
  next hpos => exact .inl ⟨hpos, (Option.some.inj hr).symm⟩
  next hpos =>
    have hzero : sem.value = 0 := Nat.eq_zero_of_not_pos hpos
    split at hr
    next htime => exact .inr (.inl ⟨hzero, htime, (Option.some.inj hr).symm⟩)
    next htime =>
      obtain ⟨k', hk', hr⟩ := Option.bind_eq_some_iff.mp hr
      exact .inr (.inr ⟨hzero, htime, k', hk', (Option.some.inj hr).symm⟩)

section

variable (h : Inv value s)

include h

/-- A granted take: there is no waiter that could be passed by. -/
theorem Inv.take_granted (t : Tid) (hpos : 0 < s.sem.value) :
    Inv value (s.afterTake t (s.kernel, { s.sem with value := s.sem.value - 1 }, some .eok)) := by
  have hcount := h.count
  have hrange := h.range
  constructor
  · exact h.wf
  · simp only [Sys.afterTake]
    omega
  · simp only [Sys.afterTake, if_true]
    omega
  · intro hne
    have := h.zero hne
    omega
  · exact h.phase
  · intro r hr
    rcases List.mem_append.mp hr with hr | hr
    · exact h.returned r hr
    · cases List.mem_singleton.mp hr
      simp

theorem Inv.take_timeout (t : Tid) :
    Inv value (s.afterTake t (s.kernel, s.sem, some .etimeout)) := by
  refine ⟨h.wf, h.range, h.count, h.zero, h.phase, ?_⟩
  intro r hr
  rcases List.mem_append.mp hr with hr | hr
  · exact h.returned r hr
  · cases List.mem_singleton.mp hr
    simp

theorem Inv.take_blocks {time : Int} {k' : Kernel}
    (hstat : (s.kernel.thread t).stat = .ready) (hzero : s.sem.value = 0)
    (hk : ((s.kernel.setError t .eok).rtIpcListSuspend
      s.sem.parent.suspendThread t s.sem.parent.flag).startThreadTimer t time = some k') :
    Inv value (s.afterTake t (k', s.sem, none)) := by
  have hsus := (h.wf.setError t .eok).block (by simpa using hstat) (suspendThread_isWait s.sem.parent) hk
  refine ⟨hsus.wf, h.range, h.count, fun _ => hzero, fun u => ?_, h.returned⟩
  have hmem : u ∈ k'.tlist s.sem.parent.suspendThread ↔ u = t ∨ u ∈ s.waiters := hsus.mem
  by_cases hut : u = t
  · subst hut
    simp only [Sys.afterTake, update_self]
    exact ⟨hmem.mpr (.inl rfl), by rw [hsus.thread_same]; simp⟩
  · simp only [Sys.afterTake, update_of_ne hut]
    rw [hsus.thread_of_ne hut, Kernel.setThread_of_ne _ _ hut]
    have hmem : u ∈ k'.tlist s.sem.parent.suspendThread ↔ u ∈ s.waiters := by simp [hmem, hut]
    exact (propext hmem) ▸ h.phase u

/-- The phases after one waiting thread was woken. -/
theorem Inv.phase_woken {u : Tid} {k' : Kernel} {err : Err}
    {woken : Phase} (hwk : s.kernel.Wakes k' t err)
    (hok : woken.Ok (k'.thread t) (t ∈ k'.tlist s.sem.parent.suspendThread)) :
    (if u = t then woken else s.phase u).Ok (k'.thread u)
      (u ∈ k'.tlist s.sem.parent.suspendThread) := by
  by_cases hut : u = t
  · subst hut
    simpa using hok
  · have hmem : u ∈ k'.tlist s.sem.parent.suspendThread ↔ u ∈ s.waiters := by
      rw [hwk.mem h.wf (suspendThread_isWait _), Sys.waiters]
      simp [hut]
    rw [if_neg hut, hwk.thread_of_ne hut, propext hmem]
    exact h.phase u

/-- A release with waiters hands its unit to the first of them. -/
theorem Inv.release_waiters {rest : List Tid} (hlist : s.waiters = t :: rest) :
    ∃ s', step s .release = some s' ∧ Inv value s' ∧ s'.sem = s.sem ∧ s'.waiters = rest ∧
      s'.granted = s.granted + 1 ∧ s'.phase t = .granted ∧
      s'.kernel.thread = update s.kernel.thread t
        { s.kernel.thread t with stat := .ready } := by
  have hw := suspendThread_isWait s.sem.parent
  have hmem : t ∈ s.waiters := by simp [hlist]
  obtain ⟨k', hk', hwk⟩ := h.wf.rtIpcListResume hw hlist
  have hresumed : s.resumed k' = [t] := hwk.filter_woken h.wf hw hmem
  have hphase : s.phase t = .waiting := by
    have hok := h.phase t
    cases hp : s.phase t <;> simp_all [Phase.Ok]
  have herr : (s.kernel.thread t).error = .eok := by
    have hok := h.phase t
    rw [hphase] at hok
    exact hok.2
  have hrest : k'.tlist s.sem.parent.suspendThread = rest := by
    rw [hwk.wait _ hw]
    change s.waiters.erase t = rest
    rw [hlist, List.erase_cons_head]
  have hstep : step s .release = some { s with
      kernel := k'
      phase := fun u => if u = t then .granted else s.phase u
      releases := s.releases + 1
      granted := s.granted + 1 } := by
    have hne : s.kernel.tlist s.sem.parent.suspendThread ≠ [] := List.ne_nil_of_mem hmem
    have hrelease : rtSemRelease s.kernel s.sem = some (k', s.sem) := by
      rw [rtSemRelease, if_pos hne, hk']
      rfl
    simp [step, hrelease, hresumed]
  have hself := hwk.thread_same
  refine ⟨_, hstep, ?_, rfl, hrest, rfl, if_pos rfl, ?_⟩
  · have hcount := h.count
    refine ⟨hwk.wf, h.range, ?_, fun _ => h.zero (List.ne_nil_of_mem hmem), fun u => ?_, h.returned⟩
    · change (s.sem.value + (s.granted + 1)) % 65536 = (value + (s.releases + 1)) % 65536
      omega
    · refine h.phase_woken hwk ⟨?_, by rw [hself], by rw [hself, herr]⟩
      rw [hwk.mem h.wf hw]
      simp
  · exact hwk.thread

theorem Inv.release_none {s' : Sys} (hlist : s.waiters = [])
    (hs' : step s .release = some s') : Inv value s' := by
  have hnil : s.kernel.tlist s.sem.parent.suspendThread = [] := hlist
  have hresumed : ∀ k, s.resumed k = [] := by simp [Sys.resumed, hlist]
  simp only [step, rtSemRelease, hnil, ne_eq, not_true_eq_false, if_false, Option.bind_eq_bind,
    Option.bind_some, hresumed] at hs'
  cases hs'
  have hcount := h.count
  refine ⟨h.wf, Nat.mod_lt _ (by omega), ?_, fun hne => absurd hlist hne, ?_, h.returned⟩
  · change ((s.sem.value + 1) % 65536 + (s.granted + 0)) % 65536 = (value + (s.releases + 1)) % 65536
    omega
  · intro u
    simpa [Sys.waiters] using h.phase u

/-- A timer that expires ends the take of its thread without a unit. -/
theorem Inv.expire {s' : Sys} (hs' : step s (.expire t) = some s') :
    Inv value s' ∧ s'.sem = s.sem ∧ s'.granted = s.granted ∧ s'.waiters = s.waiters.erase t ∧
      (t ∈ s.waiters → s'.phase t = .expired) := by
  obtain ⟨k', hk', ⟨⟩⟩ := Option.bind_eq_some_iff.mp hs'
  have hw := suspendThread_isWait s.sem.parent
  have hwk := h.wf.wakes_expire hk'
  have hself := hwk.thread_same
  have hnot : t ∉ k'.tlist s.sem.parent.suspendThread := by
    rw [hwk.mem h.wf hw]
    simp
  refine ⟨⟨hwk.wf, h.range, h.count, ?_, fun u => ?_, h.returned⟩, rfl, rfl, hwk.wait _ hw, ?_⟩
  · intro hne
    apply h.zero
    intro hnil
    apply hne
    change k'.tlist s.sem.parent.suspendThread = []
    rw [hwk.wait _ hw]
    change s.waiters.erase t = []
    rw [hnil]
    rfl
  · change (if u = t ∧ t ∈ s.waiters then Phase.expired else s.phase u).Ok (k'.thread u)
      (u ∈ k'.tlist s.sem.parent.suspendThread)
    by_cases hmem : t ∈ s.waiters
    · simp only [hmem, and_true]
      exact h.phase_woken hwk ⟨hnot, by rw [hself], by rw [hself]⟩
    · -- a thread that waits for something else keeps its phase
      have hidle : s.phase t = .idle := by
        have hok := h.phase t
        have hsus := hwk.suspended
        cases hp : s.phase t <;> simp_all [Phase.Ok]
      have hkeep : (if u = t then Phase.idle else s.phase u).Ok (k'.thread u)
          (u ∈ k'.tlist s.sem.parent.suspendThread) := h.phase_woken hwk hnot
      simp only [hmem, and_false, if_false]
      by_cases hut : u = t
      · subst hut
        rw [hidle]
        exact hnot
      · simpa only [if_neg hut] using hkeep
  · intro hmem
    exact if_pos ⟨rfl, hmem⟩

theorem Inv.takeReturn {s' : Sys} (hs' : step s (.takeReturn t) = some s') : Inv value s' := by
  obtain ⟨hif, hs'⟩ := Option.ite_none_right_eq_some.mp hs'
  obtain ⟨hstat, hphase⟩ := hif
  cases hs'
  have hok := h.phase t
  have hnot : t ∉ s.waiters := fun hmem => h.wf.notMem_wait hstat (suspendThread_isWait _) hmem
  refine ⟨h.wf, h.range, h.count, h.zero, fun u => ?_, fun r hr => ?_⟩
  · change (update s.phase t .idle u).Ok (s.kernel.thread u) (u ∈ s.waiters)
    by_cases hut : u = t
    · subst hut
      simpa [Phase.Ok] using hnot
    · rw [update_of_ne hut]
      exact h.phase u
  · rcases List.mem_append.mp hr with hr | hr
    · exact h.returned r hr
    · cases List.mem_singleton.mp hr
      cases hp : s.phase t <;> simp_all [Phase.Ok, rtSemTakeReturn]

end

theorem step_inv (s : Sys) (e : Event) (s' : Sys) (h : Inv value s)
    (hs' : step s e = some s') : Inv value s' := by
  cases e with
  | take t time =>
    obtain ⟨hif, hs'⟩ := Option.ite_none_right_eq_some.mp hs'
    obtain ⟨r, hr, rfl⟩ := Option.map_eq_some_iff.mp hs'
    rcases rtSemTake_cases hr with ⟨hpos, rfl⟩ | ⟨-, -, rfl⟩ | ⟨hzero, -, k', hk', rfl⟩
    · exact h.take_granted t hpos
    · exact h.take_timeout t
    · exact h.take_blocks hif.1 hzero hk'
  | trytake t =>
    obtain ⟨r, hr, rfl⟩ := Option.map_eq_some_iff.mp hs'
    rcases rtSemTake_cases hr with ⟨hpos, rfl⟩ | ⟨-, -, rfl⟩ | ⟨-, htime, -⟩
    · exact h.take_granted t hpos
    · exact h.take_timeout t
    · exact absurd rfl htime
  | takeReturn t => exact h.takeReturn hs'
  | release =>
    cases hlist : s.waiters with
    | nil => exact h.release_none hlist hs'
    | cons t rest =>
      obtain ⟨s1, hs1, hinv, -⟩ := h.release_waiters hlist
      cases hs'.symm.trans hs1
      exact hinv
  | expire t => exact (h.expire hs').1

/-- The accounting of a semaphore in every run. The units are conserved modulo `2 ^ 16`; nobody
waits while there are units; a release with waiters resumes exactly the first one and does
not touch the value; a timer that expires takes nothing, and a take returns `RT_EOK` if and
only if it was granted, and `RT_ETIMEOUT` otherwise. -/
theorem accounting {s0 s : Sys} {value : Nat} {es : List Event} (hinit : Initial s0 value)
    (hrun : run step s0 es = some s) :
    (s.sem.value : Int) = ((value : Int) + s.releases - s.granted) % 65536 ∧
    (s.waiters ≠ [] → s.sem.value = 0) ∧
    (∀ t rest, s.waiters = t :: rest →
      ∃ s', step s .release = some s' ∧ s'.sem = s.sem ∧ s'.waiters = rest ∧
        s'.granted = s.granted + 1 ∧ s'.phase t = .granted ∧
        s'.kernel.thread = update s.kernel.thread t
          { s.kernel.thread t with stat := .ready }) ∧
    (∀ t s', step s (.expire t) = some s' →
      s'.sem = s.sem ∧ s'.granted = s.granted ∧ s'.waiters = s.waiters.erase t ∧
        (t ∈ s.waiters → s'.phase t = .expired)) ∧
    ∀ r ∈ s.returned, r.result = if r.granted then .eok else .etimeout := by
  have hinv : Inv value s := run_invariant step_inv hinit.inv hrun
  refine ⟨?_, hinv.zero, ?_, ?_, hinv.returned⟩
  · have hcount := hinv.count
    have hrange := hinv.range
    omega
  · intro t rest hlist
    obtain ⟨s', hs', -, hrest⟩ := hinv.release_waiters hlist
    exact ⟨s', hs', hrest⟩
  · intro t s' hs'
    exact (hinv.expire hs').2

/-- A semaphore with one unit and three ready threads. -/
def oneUnit : Sys where
  kernel := Kernel.bootThreads (fun _ => 10) [0, 1, 2]
  sem := rtSemInit 0 1 .fifo
  phase := fun _ => .idle
  releases := 0
  granted := 0
  returned := []

/-- Thread 0 gets the unit, the other two wait, and a release resumes thread 1. -/
theorem accounting_oneUnit :
    ∃ s s', run step oneUnit [.take 0 0, .take 1 (-1), .take 2 7] = some s ∧
      s.waiters = [1, 2] ∧ (s.sem.value : Int) = ((1 : Nat) + s.releases - s.granted : Int) % 65536 ∧
      step s .release = some s' ∧ s'.waiters = [2] ∧ s'.phase 1 = .granted := by
  obtain ⟨s, hrun⟩ : ∃ s, run step oneUnit [.take 0 0, .take 1 (-1), .take 2 7] = some s := ⟨_, rfl⟩
  have hinit : Initial oneUnit 1 :=
    ⟨Kernel.bootThreads_wf _ _, rfl, rfl, fun _ => rfl, rfl, rfl, rfl⟩
  have hlist : s.waiters = [1, 2] := by
    cases hrun
    rfl
  obtain ⟨hvalue, -, hrelease, -⟩ := accounting hinit hrun
  obtain ⟨s', hs', -, hrest, -, hphase, -⟩ := hrelease 1 [2] hlist
  exact ⟨s, s', hrun, hlist, hvalue, hs', hrest, hphase⟩

end Sem

end RtThread
