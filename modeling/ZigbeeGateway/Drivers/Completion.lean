-- SUMMARY: Completions: signals are neither lost nor used twice.
import ZigbeeGateway.Lib.Run
import ZigbeeGateway.Kernel.Ipc

/-!
# Completions

The model of `components/drivers/src/completion.c` with one waiting thread. A call of
`rt_completion_done` reads the flag before it disables the interrupts, so it is two steps, and
several calls can be between them. A blocked `rt_completion_wait` clears the flag when it returns,
a wait that finds the flag set does not.

The history variables of `Sys` count the signals and keep the results of the waits. A signal that
resumes the waiting thread is handed over to it; any other one is pending until a wait takes it.
-/

namespace RtThread

open Run

/-- `RT_UNCOMPLETED` and `RT_COMPLETED`. -/
inductive CompletionFlag where
  | uncompleted
  | completed
  deriving DecidableEq, Repr

/-- `struct rt_completion`; the number `obj` stands for the address of the object. -/
structure Completion where
  obj : Nat
  flag : CompletionFlag
  deriving DecidableEq, Repr

namespace Completion

def suspendedList (c : Completion) : ListHead := .suspendThread c.obj

/-- `rt_completion_init`. -/
def rtCompletionInit (obj : Nat) : Completion where
  obj := obj
  flag := .uncompleted

/-- `rt_completion_wait` of thread `t` up to its call of `rt_schedule`. The result is `none` when
the thread is suspended, and the return value otherwise. -/
def rtCompletionWait (k : Kernel) (c : Completion) (t : Tid) (timeout : Int) :
    Option (Kernel × Option Err) :=
  if c.flag ≠ .completed then do
    -- only one thread can suspend on complete
    rtAssert (k.tlist c.suspendedList = [])
    if timeout = 0 then
      return (k, some .etimeout)
    else
      let k := k.setThread t { k.thread t with error := .eok }
      let (k, _) := k.rtThreadSuspend t
      let k := k.rtListInsertBefore c.suspendedList t
      let k ← k.startThreadTimer t timeout
      return (k, none)
  else
    some (k, some .eok)

/-- The end of a blocked `rt_completion_wait`, when the thread runs again. -/
def rtCompletionWaitReturn (k : Kernel) (c : Completion) (t : Tid) : Completion × Err :=
  ({ c with flag := .uncompleted }, (k.thread t).error)

/-- The critical section of `rt_completion_done`. -/
def rtCompletionDone (k : Kernel) (c : Completion) : Kernel × Completion :=
  let c := { c with flag := .completed }
  match k.tlist c.suspendedList with
  | thread :: _ => ((k.rtThreadResume thread).1, c)
  | [] => (k, c)

/-! ## Runs -/

/-- The calls of the waiting thread, the two steps of `rt_completion_done` from any context, and
the expiry of the thread timer. -/
inductive Event where
  | wait (timeout : Int)
  | waitReturn
  | doneTest
  | doneSet
  | expire
  deriving DecidableEq, Repr

structure Sys where
  kernel : Kernel
  completion : Completion
  /-- The thread that waits, and whether it is in a blocked call. -/
  waiter : Tid
  inWait : Bool
  /-- The number of calls of `rt_completion_done` that have read the flag and not yet set it. -/
  inDone : Nat
  /-- The number of calls of `rt_completion_done`, and the results of the waits. -/
  dones : Nat
  returned : List Err
  /-- There is a signal that neither resumed the thread nor was taken by a wait since. -/
  pending : Bool

namespace Sys

def suspended (s : Sys) : List Tid := s.kernel.tlist s.completion.suspendedList

/-- The number of waits that returned `RT_EOK`. -/
def successes (s : Sys) : Nat := s.returned.count .eok

/-- The result of a call of `rt_completion_wait`. -/
def afterWait (s : Sys) : Kernel × Option Err → Sys
  | (k, none) => { s with kernel := k, inWait := true }
  | (k, some result) =>
    { s with
      kernel := k
      returned := s.returned ++ [result]
      pending := if result = .eok then false else s.pending }

/-- The blocked call was ended and has not yet returned. -/
def Returning (s : Sys) : Prop := s.inWait ∧ (s.kernel.thread s.waiter).stat = .ready

end Sys

def step (s : Sys) : Event → Option Sys
  | .wait timeout =>
    if (s.kernel.thread s.waiter).stat = .ready ∧ ¬ s.inWait then
      (rtCompletionWait s.kernel s.completion s.waiter timeout).map s.afterWait
    else
      none
  | .waitReturn =>
    if (s.kernel.thread s.waiter).stat = .ready ∧ s.inWait then
      let (c, result) := rtCompletionWaitReturn s.kernel s.completion s.waiter
      some { s with completion := c, inWait := false, returned := s.returned ++ [result] }
    else
      none
  | .doneTest =>
    if s.completion.flag = .completed then
      some { s with dones := s.dones + 1, pending := true }
    else
      some { s with inDone := s.inDone + 1 }
  | .doneSet =>
    if 0 < s.inDone then
      let (k, c) := rtCompletionDone s.kernel s.completion
      some { s with
        kernel := k
        completion := c
        inDone := s.inDone - 1
        dones := s.dones + 1
        pending := if s.suspended = [] then true else s.pending }
    else
      none
  | .expire => (s.kernel.expire s.waiter).map fun k => { s with kernel := k }

/-- A completion that was just initialised, and a ready thread. -/
structure Initial (s : Sys) : Prop where
  wf : s.kernel.WF
  completion : ∃ obj, s.completion = rtCompletionInit obj
  suspended : s.suspended = []
  ready : (s.kernel.thread s.waiter).stat = .ready
  inWait : s.inWait = false
  dones : s.dones = 0
  returned : s.returned = []
  pending : s.pending = false

/-- A wait does not find the flag that an earlier wait has left, and no signal is given between
the end of a blocked wait and its return. -/
def Undisturbed (s : Sys) : Event → Prop
  | .wait _ => s.completion.flag = .completed → s.pending
  | .doneTest => s.completion.flag = .completed → ¬ s.Returning
  | .doneSet => ¬ s.Returning
  | _ => True

/-! ## The states of the waiting thread -/

/-- Where the waiting thread is, and what that says about the flag, the pending signal and the
counts. -/
inductive Sys.Ok (s : Sys) : Prop where
  | idle (hwait : s.inWait = false) (hready : (s.kernel.thread s.waiter).stat = .ready)
      (hlist : s.suspended = []) (hflag : s.pending → s.completion.flag = .completed)
      (hcount : s.successes + s.pending.toNat ≤ s.dones)
  | suspended (hwait : s.inWait = true) (hlist : s.suspended = [s.waiter])
      (herror : (s.kernel.thread s.waiter).error = .eok)
      (hflag : s.completion.flag = .uncompleted) (hpending : s.pending = false)
      (hcount : s.successes ≤ s.dones)
  | resumed (hwait : s.inWait = true) (hready : (s.kernel.thread s.waiter).stat = .ready)
      (hlist : s.suspended = []) (herror : (s.kernel.thread s.waiter).error = .eok)
      (hpending : s.pending = false) (hcount : s.successes + 1 ≤ s.dones)
  | expired (hwait : s.inWait = true) (hready : (s.kernel.thread s.waiter).stat = .ready)
      (hlist : s.suspended = []) (herror : (s.kernel.thread s.waiter).error = .etimeout)
      (hpending : s.pending = false) (hcount : s.successes ≤ s.dones)

structure Inv (s : Sys) : Prop where
  wf : s.kernel.WF
  ok : s.Ok

theorem suspendedList_isWait (c : Completion) : c.suspendedList.IsWait := trivial

theorem Initial.inv {s : Sys} (h : Initial s) : Inv s := by
  refine ⟨h.wf, .idle h.inWait h.ready h.suspended ?_ ?_⟩
  · simp [h.pending]
  · simp [Sys.successes, h.returned, h.pending]

/-- The three ways through `rt_completion_wait`. -/
theorem rtCompletionWait_cases {k : Kernel} {c : Completion} {t : Tid} {timeout : Int}
    {r : Kernel × Option Err} (hr : rtCompletionWait k c t timeout = some r) :
    (c.flag = .completed ∧ r = (k, some .eok)) ∨
    (c.flag = .uncompleted ∧ r = (k, some .etimeout)) ∨
    (c.flag = .uncompleted ∧ k.tlist c.suspendedList = [] ∧ ∃ k',
      (((k.setThread t { k.thread t with error := .eok }).rtThreadSuspend t).1.rtListInsertBefore
        c.suspendedList t).startThreadTimer t timeout = some k' ∧ r = (k', none)) := by
  unfold rtCompletionWait at hr
  split at hr
  next hflag =>
    have hflag : c.flag = .uncompleted := by
      cases hc : c.flag with
      | uncompleted => rfl
      | completed => exact absurd hc hflag
    obtain ⟨hlist, hr⟩ := rtAssert_bind_eq_some.mp hr
    split at hr
    next =>
      cases hr
      exact .inr (.inl ⟨hflag, rfl⟩)
    next =>
      obtain ⟨k', hk', hr⟩ := Option.bind_eq_some_iff.mp hr
      cases hr
      exact .inr (.inr ⟨hflag, hlist, k', hk', rfl⟩)
  next hflag =>
    cases hr
    exact .inl ⟨not_not.mp hflag, rfl⟩

variable {s s' : Sys}

theorem Inv.wait {timeout : Int} (h : Inv s) (hund : Undisturbed s (.wait timeout))
    (hs' : step s (.wait timeout) = some s') : Inv s' := by
  simp only [step, Option.ite_none_right_eq_some, Option.map_eq_some_iff] at hs'
  obtain ⟨⟨hready, hidle⟩, r, hr, rfl⟩ := hs'
  cases h.ok with
  | suspended hwait | resumed hwait | expired hwait => exact absurd hwait hidle
  | idle hwait _ hlist hflag hcount =>
    obtain ⟨hset, rfl⟩ | ⟨-, rfl⟩ | ⟨hunset, -, k', hk', rfl⟩ := rtCompletionWait_cases hr
    · refine ⟨h.wf, .idle hwait hready hlist (by simp [Sys.afterWait]) ?_⟩
      simp only [hund hset, Bool.toNat_true, Sys.successes] at hcount
      simpa [Sys.afterWait, Sys.successes] using hcount
    · refine ⟨h.wf, .idle hwait hready hlist (by simpa [Sys.afterWait] using hflag) ?_⟩
      simpa [Sys.afterWait, Sys.successes] using hcount
    · have hwaits := h.wf.waits hready (suspendedList_isWait _) hk'
      have hpending : s.pending = false := by
        cases hp : s.pending with
        | false => rfl
        | true => cases hunset.symm.trans (hflag hp)
      refine ⟨hwaits.wf, .suspended rfl ?_ ?_ hunset hpending ?_⟩
      · exact hwaits.list.trans (by rw [show s.kernel.tlist _ = [] from hlist]; rfl)
      · change (k'.thread s.waiter).error = .eok
        rw [hwaits.thread_same]
      · exact (Nat.le_add_right _ _).trans hcount

theorem Inv.waitReturn (h : Inv s) (hs' : step s .waitReturn = some s') : Inv s' := by
  simp only [step, Option.ite_none_right_eq_some] at hs'
  obtain ⟨⟨hready, hwait⟩, hs'⟩ := hs'
  cases hs'
  have hnil : s.suspended = [] → s.kernel.tlist
      (rtCompletionWaitReturn s.kernel s.completion s.waiter).1.suspendedList = [] := id
  cases h.ok with
  | idle hidle => exact absurd hwait (by simp [hidle])
  | suspended _ hlist =>
    have hmem : s.waiter ∈ s.suspended := by simp [hlist]
    exact absurd hmem (h.wf.notMem_wait hready (suspendedList_isWait _))
  | resumed _ _ hlist herror hpending hcount | expired _ _ hlist herror hpending hcount =>
    refine ⟨h.wf, .idle rfl hready (hnil hlist) (by simp [hpending]) ?_⟩
    simpa [Sys.successes, rtCompletionWaitReturn, herror, hpending] using hcount

theorem Inv.doneTest (h : Inv s) (hund : Undisturbed s .doneTest)
    (hs' : step s .doneTest = some s') : Inv s' := by
  simp only [step] at hs'
  split at hs'
  next hset =>
    cases hs'
    cases h.ok with
    | idle hwait hready hlist hflag hcount =>
      refine ⟨h.wf, .idle hwait hready hlist (fun _ => hset) ?_⟩
      have : s.successes ≤ s.dones := (Nat.le_add_right _ _).trans hcount
      exact Nat.succ_le_succ this
    | suspended _ _ _ hflag => cases hset.symm.trans hflag
    | resumed hwait hready | expired hwait hready => exact absurd ⟨hwait, hready⟩ (hund hset)
  next =>
    cases hs'
    refine ⟨h.wf, ?_⟩
    cases h.ok with
    | idle hwait hready hlist hflag hcount => exact .idle hwait hready hlist hflag hcount
    | suspended hwait hlist herror hflag hpending hcount =>
      exact .suspended hwait hlist herror hflag hpending hcount
    | resumed hwait hready hlist herror hpending hcount =>
      exact .resumed hwait hready hlist herror hpending hcount
    | expired hwait hready hlist herror hpending hcount =>
      exact .expired hwait hready hlist herror hpending hcount

theorem Inv.doneSet (h : Inv s) (hund : Undisturbed s .doneSet)
    (hs' : step s .doneSet = some s') : Inv s' := by
  simp only [step, Option.ite_none_right_eq_some] at hs'
  obtain ⟨-, hs'⟩ := hs'
  have hw := suspendedList_isWait s.completion
  cases h.ok with
  | resumed hwait hready | expired hwait hready => exact absurd ⟨hwait, hready⟩ hund
  | idle hwait hready hlist hflag hcount =>
    have hdone : rtCompletionDone s.kernel s.completion =
        (s.kernel, { s.completion with flag := .completed }) := by
      have hnil : s.kernel.tlist { s.completion with flag := .completed }.suspendedList = [] := hlist
      rw [rtCompletionDone, hnil]
    rw [hdone] at hs'
    cases hs'
    refine ⟨h.wf, .idle hwait hready hlist (fun _ => rfl) ?_⟩
    have : s.successes ≤ s.dones := (Nat.le_add_right _ _).trans hcount
    simpa [hlist, Sys.successes] using this
  | suspended hwait hlist herror hflag hpending hcount =>
    have hdone : rtCompletionDone s.kernel s.completion =
        ((s.kernel.rtThreadResume s.waiter).1, { s.completion with flag := .completed }) := by
      have hone : s.kernel.tlist { s.completion with flag := .completed }.suspendedList =
          [s.waiter] := hlist
      rw [rtCompletionDone, hone]
    have hmem : s.waiter ∈ s.kernel.tlist s.completion.suspendedList := by
      rw [show s.kernel.tlist s.completion.suspendedList = _ from hlist]
      exact List.mem_singleton_self _
    have hwk := h.wf.wakes_resume (h.wf.stat_of_mem_wait hw hmem)
    have hself := hwk.thread_same
    rw [hdone] at hs'
    cases hs'
    refine ⟨hwk.wf, .resumed hwait (by rw [hself]) ?_ (by rw [hself]; exact herror) ?_ ?_⟩
    · refine (hwk.wait _ hw).trans ?_
      rw [show s.kernel.tlist s.completion.suspendedList = _ from hlist]
      simp
    · simp [hlist, hpending]
    · exact Nat.succ_le_succ hcount

theorem Inv.expire (h : Inv s) (hs' : step s .expire = some s') : Inv s' := by
  obtain ⟨k', hk', rfl⟩ := Option.map_eq_some_iff.mp hs'
  have hwk := h.wf.wakes_expire hk'
  have hself := hwk.thread_same
  cases h.ok with
  | idle _ hready | resumed _ hready | expired _ hready => cases hready.symm.trans hwk.suspended
  | suspended hwait hlist herror hflag hpending hcount =>
    refine ⟨hwk.wf, .expired hwait (by rw [hself]) ?_ (by rw [hself]) hpending hcount⟩
    refine (hwk.wait _ (suspendedList_isWait _)).trans ?_
    rw [show s.kernel.tlist s.completion.suspendedList = _ from hlist]
    simp

theorem step_inv {e : Event} (h : Inv s) (hund : Undisturbed s e) (hs' : step s e = some s') :
    Inv s' := by
  cases e with
  | wait timeout => exact h.wait hund hs'
  | waitReturn => exact h.waitReturn hs'
  | doneTest => exact h.doneTest hund hs'
  | doneSet => exact h.doneSet hund hs'
  | expire => exact h.expire hs'

/-- A pending signal is taken by the next wait and by nothing else. -/
theorem Inv.pending_taken (h : Inv s) (hpending : s.pending) (timeout : Int) :
    step s (.wait timeout) =
      some { s with returned := s.returned ++ [.eok], pending := false } := by
  cases h.ok with
  | suspended _ _ _ _ hnone | resumed _ _ _ _ hnone | expired _ _ _ _ hnone =>
    cases hnone.symm.trans hpending
  | idle hwait hready _ hflag =>
    have hresult : rtCompletionWait s.kernel s.completion s.waiter timeout =
        some (s.kernel, some .eok) := by
      rw [rtCompletionWait, if_neg (not_not.mpr (hflag hpending))]
    simp [step, hready, hwait, hresult, Sys.afterWait]

theorem step_pending {e : Event} (hwait : ∀ timeout, e ≠ .wait timeout) (hpending : s.pending)
    (hs' : step s e = some s') : s'.pending := by
  cases e with
  | wait timeout => exact absurd rfl (hwait timeout)
  | waitReturn =>
    simp only [step, Option.ite_none_right_eq_some] at hs'
    obtain ⟨-, ⟨⟩⟩ := hs'
    exact hpending
  | doneTest =>
    simp only [step] at hs'
    split at hs' <;> cases hs'
    · rfl
    · exact hpending
  | doneSet =>
    simp only [step, Option.ite_none_right_eq_some] at hs'
    obtain ⟨-, ⟨⟩⟩ := hs'
    split
    · rfl
    · exact hpending
  | expire =>
    obtain ⟨k', -, rfl⟩ := Option.map_eq_some_iff.mp hs'
    exact hpending

/-- In every run in which no wait finds the flag that an earlier wait has left, and in which no
signal is given between the end of a blocked wait and its return, at most as many waits
succeed as there were signals, and a signal that resumed nobody stays pending until the next
wait, which returns `RT_EOK`. -/
theorem completion_signals_kept {es : List Event} (h : Initial s)
    (hund : Along step Undisturbed s es) (hrun : run step s es = some s') :
    s'.successes ≤ s'.dones ∧
    (s'.pending → ∀ timeout, step s' (.wait timeout) =
      some { s' with returned := s'.returned ++ [.eok], pending := false }) ∧
    ∀ e s'', (∀ timeout, e ≠ .wait timeout) → s'.pending → step s' e = some s'' → s''.pending := by
  have hinv : Inv s' := run_invariant_along (fun s e s' => step_inv) h.inv hund hrun
  refine ⟨?_, hinv.pending_taken, fun e s'' => step_pending⟩
  cases hinv.ok with
  | idle _ _ _ _ hcount => exact (Nat.le_add_right _ _).trans hcount
  | suspended _ _ _ _ _ hcount | expired _ _ _ _ _ hcount => exact hcount
  | resumed _ _ _ _ _ hcount => exact Nat.le_of_succ_le hcount

/-! ## Lost and repeated signals -/

/-- A fresh completion and one ready thread. -/
def oneWaiter : Sys where
  kernel := Kernel.bootThreads (fun _ => 10) [0]
  completion := rtCompletionInit 0
  waiter := 0
  inWait := false
  inDone := 0
  dones := 0
  returned := []
  pending := false

theorem oneWaiter_initial : Initial oneWaiter :=
  ⟨Kernel.bootThreads_wf _ _, ⟨0, rfl⟩, rfl, by decide, rfl, rfl, rfl, rfl⟩

/-- A blocked wait is resumed by one signal and returns, the next signal stays pending. -/
theorem completion_signals_kept_blocked :
    ∃ s, run step oneWaiter [.wait 5, .doneTest, .doneSet, .waitReturn, .doneTest, .doneSet] = some s ∧
      s.pending ∧ s.successes ≤ s.dones ∧
      step s (.wait 0) = some { s with returned := s.returned ++ [.eok], pending := false } := by
  refine run_exists (Q := fun s => s.pending) (by decide) fun s hrun hpending => ?_
  have hund : Along step Undisturbed oneWaiter
      [.wait 5, .doneTest, .doneSet, .waitReturn, .doneTest, .doneSet] := by
    refine along_cons nofun rfl (along_cons nofun rfl (along_cons ?_ rfl ?_))
    · exact fun h => absurd h.2 (by decide)
    · exact along_cons trivial rfl (along_cons nofun rfl (along_cons nofun rfl trivial))
  obtain ⟨hcount, htaken, -⟩ := completion_signals_kept oneWaiter_initial hund hrun
  exact ⟨hpending, hcount, htaken hpending 0⟩

/-- One signal lets two waits succeed, since the first one finds the flag set and leaves it. And a
signal between the expiry of the timer and the return of the wait is lost. -/
theorem signal_reused_and_lost :
    Initial oneWaiter ∧
    (∃ s, run step oneWaiter [.doneTest, .doneSet, .wait 0, .wait 0] = some s ∧
      s.returned = [.eok, .eok] ∧ s.dones = 1) ∧
    ∃ s, run step oneWaiter [.wait 5, .doneTest, .expire, .doneSet, .waitReturn, .wait 0] = some s ∧
      s.returned = [.etimeout, .etimeout] ∧ s.dones = 1 ∧ s.pending :=
  ⟨oneWaiter_initial, ⟨_, rfl, rfl, rfl⟩, _, rfl, rfl, rfl, rfl⟩

end Completion

end RtThread
