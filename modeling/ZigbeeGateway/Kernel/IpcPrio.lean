-- SUMMARY: Wait lists with RT_IPC_FLAG_PRIO: when they stay sorted.
import ZigbeeGateway.Kernel.IpcRun

/-!
# Wait lists in priority order

`rt_ipc_list_suspend` links a thread behind the waiters that are at least as urgent, so a wait list
with `RT_IPC_FLAG_PRIO` is sorted by priority and then by arrival. A call that later changes the
priority of a waiting thread, `RT_THREAD_CTRL_CHANGE_PRIORITY` or the priority inheritance of a
mutex, leaves the thread where it is in its list. The lists stay sorted in the runs in which no
priority changes next to another waiter.

The time of arrival is not in the source: the system of `IpcRun` is run with a clock that counts
its steps, and a thread arrives with the step that suspends it.
-/

namespace RtThread.IpcPrio

open Run IpcRun WaitTimer

structure Sys where
  ipc : IpcRun.Sys
  clock : Nat
  arrival : Tid → Nat

abbrev Sys.kernel (s : Sys) : Kernel := s.ipc.kernel

/-- Whether a step suspends a thread. -/
def Arrives (s s' : IpcRun.Sys) (t : Tid) : Prop :=
  (s.kernel.thread t).stat ≠ .suspend ∧ (s'.kernel.thread t).stat = .suspend

instance (s s' : IpcRun.Sys) (t : Tid) : Decidable (Arrives s s' t) :=
  inferInstanceAs (Decidable (_ ∧ _))

/-- The next state of the system, one tick of the clock later. -/
def Sys.next (s : Sys) (ipc : IpcRun.Sys) : Sys where
  ipc := ipc
  clock := s.clock + 1
  arrival := fun t => if Arrives s.ipc ipc t then s.clock else s.arrival t

def step (s : Sys) (e : Event) : Option Sys := (IpcRun.step s.ipc e).map s.next

/-- No step was taken. -/
def start (ipc : IpcRun.Sys) : Sys := ⟨ipc, 0, fun _ => 0⟩

/-- Thread `t` is more urgent than `u`, or as urgent and earlier. -/
def Before (s : Sys) (t u : Tid) : Prop :=
  (s.kernel.thread t).currentPriority < (s.kernel.thread u).currentPriority ∨
    (s.kernel.thread t).currentPriority = (s.kernel.thread u).currentPriority ∧
      s.arrival t < s.arrival u

/-- The objects that share a list head have one flag: objects at different addresses do. -/
def OneFlag (p : Parents) : Prop :=
  ∀ hd flag flag', ListOf p hd flag → ListOf p hd flag' → flag = flag'

/-- The event gives no other priority to a thread that waits next to another one in priority order. -/
def KeepsPriorities (s : Sys) (e : Event) : Prop :=
  ∀ hd, ListOf s.ipc.parents hd .prio → 2 ≤ (s.kernel.tlist hd).length →
    ∀ t ∈ s.kernel.tlist hd, ¬ Reprioritises s.ipc e t

variable {s s' : Sys} {t u : Tid} {hd : ListHead}

/-! ## One list -/

theorem Before.trans {v : Tid} (h : Before s t u) (h' : Before s u v) : Before s t v := by
  unfold Before at *
  omega

/-- The search of `rt_ipc_list_suspend` finds the place of a thread that arrives last. -/
theorem pairwise_insertPrio {l : List Tid} (h : l.Pairwise (Before s))
    (hlast : ∀ u ∈ l, s.arrival u < s.arrival t) :
    (Kernel.insertPrio s.kernel.thread t l).Pairwise (Before s) := by
  induction l with
  | nil => exact List.pairwise_singleton _ t
  | cons u rest ih =>
    obtain ⟨hu, hrest⟩ := List.pairwise_cons.mp h
    rw [Kernel.insertPrio]
    split
    next hlt =>
      have htu : Before s t u := .inl hlt
      refine List.pairwise_cons.mpr ⟨fun v hv => ?_, h⟩
      rcases List.mem_cons.mp hv with rfl | hv
      · exact htu
      · exact htu.trans (hu v hv)
    next hle =>
      have hut : Before s u t := by
        rcases Nat.lt_or_eq_of_le (Nat.le_of_not_lt hle) with hlt | heq
        · exact .inl hlt
        · exact .inr ⟨heq, hlast u List.mem_cons_self⟩
      refine List.pairwise_cons.mpr ⟨fun v hv => ?_, ih hrest fun v hv => ?_⟩
      · rcases List.mem_cons.mp ((Kernel.insertPrio_perm ..).mem_iff.mp hv) with rfl | hv
        · exact hut
        · exact hu v hv
      · exact hlast v (List.mem_cons_of_mem u hv)

/-- The order is kept where it says something and neither priorities nor arrivals change. -/
theorem pairwise_before {l l' : List Tid} (h : l.Pairwise (Before s)) (hsub : l'.Sublist l)
    (hprio : 2 ≤ l.length → ∀ t ∈ l,
      (s'.kernel.thread t).currentPriority = (s.kernel.thread t).currentPriority)
    (harrival : ∀ t ∈ l, s'.arrival t = s.arrival t) : l'.Pairwise (Before s') := by
  by_cases hlen : 2 ≤ l.length
  · have hl : l.Pairwise (Before s') := by
      refine List.Pairwise.imp_of_mem (fun {t u} ht hu htu => ?_) h
      unfold Before
      rw [hprio hlen t ht, hprio hlen u hu, harrival t ht, harrival u hu]
      exact htu
    exact hl.sublist hsub
  · have hlen' := hsub.length_le
    match l', hlen' with
    | [], _ => exact .nil
    | [t], _ => exact List.pairwise_singleton _ t
    | _ :: _ :: _, hlen' => simp only [List.length_cons] at hlen'; omega

/-! ## One step -/

variable {e : Event} {flag : IpcFlag}

theorem step_eq_some (hs : step s e = some s') :
    IpcRun.step s.ipc e = some s'.ipc ∧ s'.clock = s.clock + 1 ∧
      ∀ t, s'.arrival t = if Arrives s.ipc s'.ipc t then s.clock else s.arrival t := by
  obtain ⟨ipc, hipc, rfl⟩ := Option.map_eq_some_iff.mp hs
  exact ⟨hipc, rfl, fun t => rfl⟩

theorem isWait_of_listOf {p : Parents} (h : ListOf p hd flag) : hd.IsWait := by
  cases h <;> trivial

/-- A step makes a wait list shorter, and then it may link a thread that was ready. It changes the
priorities of the threads that `Reprioritises` says. -/
theorem waitList_cases {s s' : IpcRun.Sys} (hinv : IpcRun.Inv s) {e : IpcRun.Event} (h : Threads s s' e) (hhd : hd.IsWait) :
    (∀ t, ¬ Reprioritises s e t →
      (s'.kernel.thread t).currentPriority = (s.kernel.thread t).currentPriority) ∧
    ((s'.kernel.tlist hd).Sublist (s.kernel.tlist hd) ∨
      ∃ t flag l, Arrives s s' t ∧ ListOf s.parents hd flag ∧ l.Sublist (s.kernel.tlist hd) ∧
        s'.kernel.tlist hd = Kernel.insertWaiter s'.kernel.thread flag t l) := by
  have hwait := hinv.wait
  cases h with
  | «section» w hw hready hk hlist =>
    cases hk with
    | calm hcalm =>
      have hshrinks := hwait.calm_shrinks hcalm
      exact ⟨hshrinks.priority, .inl (hshrinks.list hd hhd)⟩
    | @blocks k1 hd' hcalm hhd' htime hblock =>
      have hready := hready.resolve_left htime
      have hsus := (hwait.calm hcalm).wf.block (hcalm.ready hready) hhd' hblock
      have hshrinks := hwait.calm_shrinks hcalm
      have hsub := hshrinks.list hd hhd
      refine ⟨fun t ht => (currentPriority_of_priorities hsus.priorities t).trans (hshrinks.priority t ht), ?_⟩
      rcases eq_or_ne hd hd' with rfl | hne
      · refine .inr ⟨_, _, _, ⟨by simp [hready], ?_⟩, hlist hd _ rfl, hsub, hsus.list⟩
        rw [hsus.thread_same]
      · exact .inl (hsus.other hd hhd hne ▸ hsub)
  | sleep hready _ hk =>
    obtain ⟨timers, err, -, hk⟩ := rtThreadSleep_eq_some hk
    have hsame := hwait.wf.rtThreadSuspend_wait hready hhd
    have hprio := Kernel.priorities_of_update (Kernel.rtThreadSuspend_thread hready) rfl rfl
    exact ⟨fun t _ => hk ▸ currentPriority_of_priorities hprio t, .inl (hk ▸ hsame ▸ List.Sublist.refl _)⟩
  | tick _ hk =>
    have hshrinks : Shrinks (Reprioritises s e) s.kernel s'.kernel := hwait.rtTickIncrease_shrinks hk
    exact ⟨hshrinks.priority, .inl (hshrinks.list hd hhd)⟩
  | expire _ hlinked hk =>
    have hshrinks : Shrinks (Reprioritises s e) s.kernel s'.kernel := .of_wakes (hwait.wf.wakes_expire hk)
    exact ⟨hshrinks.priority, .inl (hshrinks.list hd hhd)⟩

/-- The lists in priority order are sorted, and the waiting threads have arrived. -/
structure Inv (s : Sys) : Prop where
  ipc : IpcRun.Inv s.ipc
  oneFlag : OneFlag s.ipc.parents
  arrived : ∀ hd, hd.IsWait → ∀ t ∈ s.kernel.tlist hd, s.arrival t < s.clock
  sorted : ∀ hd, ListOf s.ipc.parents hd .prio → (s.kernel.tlist hd).Pairwise (Before s)

theorem Inv.start {ipc : IpcRun.Sys} (h : Initial ipc) (hflag : OneFlag ipc.parents) :
    Inv (start ipc) := by
  have hempty : ∀ hd, hd.IsWait → ∀ t, t ∉ ipc.kernel.tlist hd := fun hd hhd t ht =>
    h.stat t (h.wf.stat_of_mem_wait hhd ht)
  refine ⟨h.inv, hflag, fun hd hhd t ht => absurd ht (hempty hd hhd t), fun hd hlist => ?_⟩
  have hnil := List.eq_nil_iff_forall_not_mem.mpr (hempty hd (isWait_of_listOf hlist))
  exact hnil ▸ List.Pairwise.nil

/-- A thread that waits already does not arrive. -/
theorem Inv.arrival_same (h : Inv s) (hs : step s e = some s') (hhd : hd.IsWait)
    (ht : t ∈ s.kernel.tlist hd) : s'.arrival t = s.arrival t := by
  have hstat := h.ipc.wait.wf.stat_of_mem_wait hhd ht
  rw [(step_eq_some hs).2.2, if_neg fun harr => harr.1 hstat]

theorem Inv.arrival_lt (h : Inv s) (hs : step s e = some s') (hhd : hd.IsWait)
    (ht : t ∈ s.kernel.tlist hd) : s'.arrival t < s.clock := by
  rw [h.arrival_same hs hhd ht]
  exact h.arrived hd hhd t ht

theorem Inv.step (h : Inv s) (hkeeps : KeepsPriorities s e) (hs : step s e = some s') : Inv s' := by
  obtain ⟨hipc, hclock, harrival⟩ := step_eq_some hs
  obtain ⟨hthreads, -, hparents⟩ := h.ipc.step_effect hipc
  refine ⟨h.ipc.step hipc, hparents ▸ h.oneFlag, fun hd hhd u hu => ?_, fun hd hlist => ?_⟩
  · rw [hclock]
    apply Nat.lt_succ_of_le
    rcases (waitList_cases h.ipc hthreads hhd).2 with hsub | ⟨t, flag, l, harr, -, hsub, htlist⟩
    · exact Nat.le_of_lt (h.arrival_lt hs hhd (hsub.subset hu))
    · rw [Sys.kernel, htlist, (Kernel.insertWaiter_perm ..).mem_iff] at hu
      rcases List.mem_cons.mp hu with rfl | hu
      · rw [harrival, if_pos harr]
      · exact Nat.le_of_lt (h.arrival_lt hs hhd (hsub.subset hu))
  · have hhd := isWait_of_listOf hlist
    rw [hparents] at hlist
    obtain ⟨hprio, hcases⟩ := waitList_cases h.ipc hthreads hhd
    have hsorted {l : List Tid} (hsub : l.Sublist (s.kernel.tlist hd)) : l.Pairwise (Before s') :=
      pairwise_before (h.sorted hd hlist) hsub
        (fun hlen t ht => hprio t (hkeeps hd hlist hlen t ht))
        fun t ht => h.arrival_same hs hhd ht
    rcases hcases with hsub | ⟨t, flag, l, harr, hflag, hsub, htlist⟩
    · exact hsorted hsub
    · obtain rfl : flag = .prio := h.oneFlag hd flag .prio hflag hlist
      rw [Sys.kernel, htlist]
      refine pairwise_insertPrio (hsorted hsub) fun u hu => ?_
      rw [harrival t, if_pos harr]
      exact h.arrival_lt hs hhd (hsub.subset hu)

/-! ## Runs -/

/-- The wake-up of `rt_ipc_list_resume` goes to a most urgent waiter. -/
theorem urgent_of_sorted {k' : Kernel} (h : (s.kernel.tlist hd).Pairwise (Before s))
    (hk : s.kernel.rtIpcListResume hd = some k') :
    ∃ t ∈ s.kernel.tlist hd, k' = (s.kernel.rtThreadResume t).1 ∧ ∀ u ∈ s.kernel.tlist hd,
      (s.kernel.thread t).currentPriority ≤ (s.kernel.thread u).currentPriority := by
  unfold Kernel.rtIpcListResume at hk
  split at hk
  · cases hk
  next t rest hlist =>
    rw [hlist] at h ⊢
    obtain rfl := Option.some.inj hk
    refine ⟨t, List.mem_cons_self, rfl, fun u hu => ?_⟩
    rcases List.mem_cons.mp hu with rfl | hu
    · exact Nat.le_refl _
    · rcases (List.pairwise_cons.mp h).1 u hu with hlt | ⟨heq, -⟩
      · exact Nat.le_of_lt hlt
      · exact Nat.le_of_eq heq

/-- As long as no event changes a priority next to another waiter, the wait lists of the objects with
`RT_IPC_FLAG_PRIO` are sorted, and every wake-up goes to a most urgent waiter. -/
theorem prio_lists_sorted {ipc : IpcRun.Sys} {es : List Event} (h : Initial ipc)
    (hflag : OneFlag ipc.parents) (hkeeps : Along step KeepsPriorities (start ipc) es)
    (hrun : run step (start ipc) es = some s) (hlist : ListOf s.ipc.parents hd .prio) :
    (s.kernel.tlist hd).Pairwise (Before s) ∧
    ∀ k', s.kernel.rtIpcListResume hd = some k' →
      ∃ t ∈ s.kernel.tlist hd, k' = (s.kernel.rtThreadResume t).1 ∧ ∀ u ∈ s.kernel.tlist hd,
        (s.kernel.thread t).currentPriority ≤ (s.kernel.thread u).currentPriority := by
  have hinv : Inv s := run_invariant_along (fun _ _ _ h hP hs => h.step hP hs) (.start h hflag)
    hkeeps hrun
  have hsorted := hinv.sorted hd hlist
  exact ⟨hsorted, fun k' hk => urgent_of_sorted hsorted hk⟩

/-! ## Three threads -/

/-- Threads 1, 2 and 3, and unused objects with `RT_IPC_FLAG_PRIO`. -/
def inOrder (prio : Tid → Fin 32) : IpcRun.Sys where
  kernel := Kernel.bootThreads prio [1, 2, 3]
  sem := fun n => Sem.rtSemInit (5 * n) 0 .prio
  mutex := fun n => Mutex.rtMutexInit (5 * n + 1) .prio
  event := fun n => RtEvent.rtEventInit (5 * n + 2) .prio
  mb := fun n => Mailbox.rtMbInit (5 * n + 3) (fun _ => 0) 4 .prio
  mq := fun n => MessageQueue.rtMqInit (5 * n + 4) (fun _ => none) (fun _ _ => 0) 4 64 .prio
  wait := fun _ => none

theorem inOrder_initial (prio : Tid → Fin 32) : Initial (inOrder prio) where
  wf := Kernel.bootThreads_wf _ _
  stat
    | 0 | 1 | 2 | 3 | _ + 4 => nofun
  timerList := rfl
  activated _ := rfl
  oneShot _ := rfl
  mutex _ := ⟨rfl, rfl⟩

theorem inOrder_prio {prio : Tid → Fin 32} (h : ListOf (inOrder prio).parents hd flag) :
    flag = .prio := by
  cases h <;> rfl

theorem inOrder_oneFlag (prio : Tid → Fin 32) : OneFlag (inOrder prio).parents :=
  fun _ _ _ h h' => (inOrder_prio h).trans (inOrder_prio h').symm

theorem listOf_sem {s : IpcRun.Sys} {n obj : Nat}
    (h : (s.sem n).parent = ⟨obj, flag⟩) : ListOf s.parents (.suspendThread obj) flag := by
  have hsem : ListOf s.parents (s.sem n).parent.suspendThread (s.sem n).parent.flag := .sem n
  rw [h] at hsem
  exact hsem

/-- Threads of the priorities 20, 10 and 20 wait for a semaphore. -/
def twoUrgent : Tid → Fin 32 := fun t => if t = 2 then 10 else 20

/-- Thread 2 is the first to be woken up, and thread 1 comes before thread 3. -/
theorem prio_lists_sorted_three : ∃ s k',
    run step (start (inOrder twoUrgent)) [.semTake 0 1 (-1), .semTake 0 2 (-1), .semTake 0 3 (-1)] =
      some s ∧
    s.kernel.tlist (.suspendThread 0) = [2, 1, 3] ∧ [2, 1, 3].Pairwise (Before s) ∧
    s.kernel.rtIpcListResume (.suspendThread 0) = some k' ∧
    k' = (s.kernel.rtThreadResume 2).1 := by
  obtain ⟨s, hrun, hparent, hlist⟩ : ∃ s ∈ run step (start (inOrder twoUrgent))
      [.semTake 0 1 (-1), .semTake 0 2 (-1), .semTake 0 3 (-1)],
      (s.ipc.sem 0).parent = ⟨0, .prio⟩ ∧ s.kernel.tlist (.suspendThread 0) = [2, 1, 3] := by
    decide
  have hkeeps : Along step KeepsPriorities (start (inOrder twoUrgent))
      [.semTake 0 1 (-1), .semTake 0 2 (-1), .semTake 0 3 (-1)] := by
    apply along_of_forall
    simp [KeepsPriorities, Reprioritises]
  obtain ⟨hsorted, -⟩ := prio_lists_sorted (inOrder_initial _) (inOrder_oneFlag _) hkeeps hrun (listOf_sem hparent)
  exact ⟨s, _, hrun, hlist, hlist ▸ hsorted, by rw [Kernel.rtIpcListResume, hlist], rfl⟩

/-- Threads of the priorities 20, 10 and 5. -/
def threeLevels : Tid → Fin 32 := fun t => if t = 1 then 20 else if t = 2 then 10 else 5

/-- Thread 1 holds a mutex and waits for the semaphore behind thread 2. Then thread 3 asks for the
mutex. -/
def inherited : List Event :=
  [.mutexTake 0 1 (-1), .semTake 0 1 (-1), .semTake 0 2 (-1), .mutexTake 0 3 (-1)]

/-- Thread 1 inherits the priority 5 and stays behind thread 2, which has priority 10 and is the
one that the next release wakes up. -/
theorem inherited_priority_unsorted : ∃ s k',
    Initial (inOrder threeLevels) ∧ OneFlag (inOrder threeLevels).parents ∧
    run step (start (inOrder threeLevels)) inherited = some s ∧
    ListOf s.ipc.parents (.suspendThread 0) .prio ∧
    s.kernel.tlist (.suspendThread 0) = [2, 1] ∧
    (s.kernel.thread 1).currentPriority = 5 ∧ (s.kernel.thread 2).currentPriority = 10 ∧
    ¬ (s.kernel.tlist (.suspendThread 0)).Pairwise (Before s) ∧
    s.kernel.rtIpcListResume (.suspendThread 0) = some k' ∧
    k' = (s.kernel.rtThreadResume 2).1 := by
  obtain ⟨s, hrun, hparent, hlist, hone, htwo⟩ : ∃ s ∈ run step (start (inOrder threeLevels)) inherited,
      (s.ipc.sem 0).parent = ⟨0, .prio⟩ ∧ s.kernel.tlist (.suspendThread 0) = [2, 1] ∧
      (s.kernel.thread 1).currentPriority = 5 ∧ (s.kernel.thread 2).currentPriority = 10 := by
    decide
  refine ⟨s, _, inOrder_initial _, inOrder_oneFlag _, hrun, listOf_sem hparent, hlist, hone, htwo, ?_, ?_, rfl⟩
  · simp [hlist, Before, hone, htwo]
  · rw [Kernel.rtIpcListResume, hlist]

end RtThread.IpcPrio
