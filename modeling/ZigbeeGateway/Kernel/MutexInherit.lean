-- SUMMARY: Priority inheritance: when every waiter is protected.
import ZigbeeGateway.Lib.WaitGraph
import ZigbeeGateway.Kernel.MutexRun

/-!
# Priority inheritance

`rt_mutex_take` lends the priority of a waiter to the owner, and only to the owner;
`rt_mutex_release` sets the priority of the caller to the one saved in the released mutex.
The wait graph of a state is protected along every run whose calls meet `InheritOk`: a
lent priority need not be passed on, a release leaves no waiter of another mutex behind,
and the first waiter is the most urgent one.
-/

namespace RtThread.Mutex

open Run Function

/-- The wait graph of a state. -/
def Sys.graph (s : Sys) : WaitGraph Nat Tid Nat where
  owner := fun m => (s.mutex m).owner
  waits := fun m u => u ∈ s.waiters m
  prio := s.kernel.priorities.1

/-- The calls after which every waiter is still protected.

A take that blocks on a mutex of a less urgent owner: that owner does not wait for a
thread that is less urgent than the caller. A release that gives the mutex up: no waiter
of another mutex of the caller is more urgent than the saved priority, and no waiter of
this mutex is more urgent than the first one. -/
def InheritOk (s : Sys) : Event → Prop
  | .take m t time => time ≠ 0 → ∀ o, (s.mutex m).owner = some o →
      (s.kernel.thread t).currentPriority < (s.kernel.thread o).currentPriority →
      ∀ n q, o ∈ s.waiters n → (s.mutex n).owner = some q →
        (s.kernel.thread q).currentPriority ≤ (s.kernel.thread t).currentPriority
  | .release m t => (s.mutex m).owner = some t → (s.mutex m).hold = 1 →
      (∀ n, n ≠ m → (s.mutex n).owner = some t → ∀ u ∈ s.waiters n,
        (s.mutex m).originalPriority ≤ (s.kernel.thread u).currentPriority) ∧
      ∀ u ∈ (s.waiters m).head?, ∀ v ∈ s.waiters m,
        (s.kernel.thread u).currentPriority ≤ (s.kernel.thread v).currentPriority
  | .takeReturn _ | .expire _ => True

variable {s s' : Sys} {m : Nat} {t : Tid}

theorem Inv.waiters (h : Inv s) (m : Nat) : s.waiters m = s.kernel.tlist (.suspendThread m) := by
  rw [Sys.waiters, h.head m]

theorem Inv.waiters_of_free (h : Inv s) (hfree : (s.mutex m).owner = none) : s.waiters m = [] := by
  have hok := h.ok m
  simp only [Mutex.Ok, hfree] at hok
  exact hok.2.2

/-- A ready thread waits for no mutex. -/
theorem Inv.not_waits (h : Inv s) (hstat : (s.kernel.thread t).stat = .ready) (n : Nat) :
    t ∉ s.waiters n :=
  h.wf.notMem_wait hstat (suspendThread_isWait _)

/-! ## One call -/

theorem Inv.protected_take_free (h : Inv s) (hp : s.graph.Protected) (hinv : Inv s')
    (hpos : 0 < (s.mutex m).value) {mutex : Mutex} (howner : mutex.owner = some t)
    (hmutex : s'.mutex = update s.mutex m mutex) (htlist : s'.kernel.tlist = s.kernel.tlist)
    (hprio : s'.kernel.priorities = s.kernel.priorities) : s'.graph.Protected := by
  have hnil := h.waiters_of_free (h.owner_of_value hpos)
  refine hp.grant (m := m) (u := t) ?_ ?_ ?_ (congrArg Prod.fst hprio)
  · intro v hv
    change v ∈ s.waiters m at hv
    simp [hnil] at hv
  · rw [Sys.graph, hmutex, map_update, howner]
    rfl
  · intro n v hv
    change v ∈ s'.waiters n at hv
    rw [hinv.waiters, htlist, ← h.waiters] at hv
    exact hv

/-- The wait graph between the two halves of a release: the mutex is given up and not handed
over yet. -/
def Sys.givenUp (s : Sys) (m : Nat) (t : Tid) : WaitGraph Nat Tid Nat where
  owner := update s.graph.owner m none
  waits := s.graph.waits
  prio := update s.graph.prio t (s.mutex m).originalPriority

theorem Inv.protected_givenUp (h : Inv s) (hp : s.graph.Protected)
    (hstat : (s.kernel.thread t).stat = .ready)
    (hkeep : ∀ n, n ≠ m → (s.mutex n).owner = some t → ∀ u ∈ s.waiters n,
      (s.mutex m).originalPriority ≤ (s.kernel.thread u).currentPriority) :
    (s.givenUp m t).Protected := by
  refine hp.leave (m := m) (h.not_waits hstat) hkeep ?_ rfl rfl
  intro n o hn
  by_cases hnm : n = m
  · subst hnm
    simp [Sys.givenUp] at hn
  · exact ⟨hnm, by simpa [Sys.givenUp, hnm] using hn⟩

theorem Inv.protected_release_hands {k1 k' : Kernel} {u : Tid} {mutex : Mutex}
    (h : Inv s) (hp : (s.givenUp m t).Protected)
    (hinv : Inv (s.afterRelease m t (k', mutex, .eok))) (hstat : (s.kernel.thread t).stat = .ready)
    (hfirst : ∀ u ∈ (s.waiters m).head?, ∀ v ∈ s.waiters m,
      (s.kernel.thread u).currentPriority ≤ (s.kernel.thread v).currentPriority)
    (hh : Handed s m t u k1 k') (hmutex : mutex.owner = some u) :
    (s.afterRelease m t (k', mutex, .eok)).graph.Protected := by
  have hhead : u ∈ (s.waiters m).head? := h.waiters m ▸ hh.head
  -- the caller is ready, so the restored priority is that of no waiter
  have hsame : ∀ v ∈ s.waiters m, (s.givenUp m t).prio v = (s.kernel.thread v).currentPriority := by
    intro v hv
    have hvt : v ≠ t := by
      rintro rfl
      exact h.not_waits hstat m hv
    exact update_of_ne hvt ..
  refine hp.grant (m := m) (u := u) ?_ ?_ ?_ (congrArg Prod.fst hh.priorities)
  · intro v hv
    rw [hsame v hv, hsame u (List.mem_of_mem_head? hhead)]
    exact hfirst u hhead v hv
  · change (fun n => (update s.mutex m mutex n).owner) = _
    rw [map_update, hmutex, Sys.givenUp, update_idem]
    rfl
  · intro n v hv
    change v ∈ (s.afterRelease m t (k', mutex, .eok)).waiters n at hv
    rw [hinv.waiters] at hv
    change v ∈ k'.tlist (.suspendThread n) at hv
    rw [hh.wait n, ← h.waiters] at hv
    exact List.mem_of_mem_erase hv

/-! ## Steps and runs -/

theorem Inv.step {e : Event} (h : Inv s) (hs' : step s e = some s') : Inv s' :=
  (step_move (P := fun _ _ _ => True) h hs' fun _ _ _ _ _ => trivial).1

/-- Neither the owners nor the priorities change, and nobody begins to wait. -/
theorem Inv.protected_quiet (h : Inv s) (hp : s.graph.Protected) (hinv : Inv s')
    (howner : ∀ n, (s'.mutex n).owner = (s.mutex n).owner)
    (hprio : s'.kernel.priorities = s.kernel.priorities)
    (hwait : ∀ {n u}, u ∈ s'.kernel.tlist (.suspendThread n) →
      u ∈ s.kernel.tlist (.suspendThread n)) : s'.graph.Protected := by
  refine hp.mono (congrArg Prod.fst hprio) ?_
  intro n o u hn hu
  change u ∈ s'.waiters n at hu
  rw [hinv.waiters] at hu
  refine ⟨(howner n).symm.trans hn, ?_⟩
  change u ∈ s.waiters n
  rw [h.waiters]
  exact hwait hu

theorem step_protected {e : Event} (h : Inv s) (hp : s.graph.Protected) (hok : InheritOk s e)
    (hs' : step s e = some s') : s'.graph.Protected := by
  have hinv := h.step hs'
  cases e with
  | take m t time =>
    obtain ⟨hruns, hs'⟩ := Option.ite_none_right_eq_some.mp hs'
    obtain ⟨r, hr, rfl⟩ := Option.map_eq_some_iff.mp hs'
    rcases rtMutexTake_cases rfl hr with ⟨howner, rfl⟩ | ⟨-, hpos, rfl⟩ | rfl |
      ⟨owner, k', hne, howner, htime, hk', rfl⟩
    · refine h.protected_quiet hp hinv (fun n => ?_) (Kernel.setError_priorities ..) id
      by_cases hnm : n = m
      · subst hnm
        simp [Sys.afterTake]
      · simp [Sys.afterTake, hnm]
    · exact h.protected_take_free hp hinv hpos rfl rfl rfl (Kernel.setError_priorities ..)
    · refine h.protected_quiet hp hinv (fun n => ?_) ?_ id
      · simp [Sys.afterTake]
      · exact (Kernel.setError_priorities ..).trans (Kernel.setError_priorities ..)
    · have hb := h.blocked hruns.1 hne rfl hk'
      refine hp.block (m := m) (t := t) howner (Ne.symm hne) (hok htime owner howner) ?_ ?_
        (congrArg Prod.fst hb.priorities)
      · simp [Sys.graph, Sys.afterTake]
      · intro n u hu
        change u ∈ (s.afterTake m t (k', s.mutex m, none)).waiters n at hu
        rw [hinv.waiters] at hu
        change u ∈ s.waiters n ∨ n = m ∧ u = t
        rw [h.waiters]
        exact (hb.mem n u).mp hu
  | takeReturn t =>
    obtain ⟨-, ⟨⟩⟩ := Option.ite_none_right_eq_some.mp hs'
    exact h.protected_quiet hp hinv (fun _ => rfl) rfl id
  | release m t =>
    obtain ⟨hruns, hs'⟩ := Option.ite_none_right_eq_some.mp hs'
    obtain ⟨r, hr, rfl⟩ := Option.map_eq_some_iff.mp hs'
    rcases rtMutexRelease_cases rfl h.hold_lt hr with ⟨-, rfl⟩ | ⟨howner, hhold, rfl⟩ |
      ⟨howner, hhold, hnil, rfl⟩ | ⟨u, rest, k', howner, hhold, hlist, hk', rfl⟩
    · exact h.protected_quiet hp hinv (fun n => by simp [Sys.afterRelease])
        (Kernel.setError_priorities ..) id
    · refine h.protected_quiet hp hinv (fun n => ?_) rfl id
      by_cases hnm : n = m
      · subst hnm
        simp [Sys.afterRelease]
      · simp [Sys.afterRelease, hnm]
    · have hup := h.protected_givenUp hp hruns.1 (hok howner hhold).1
      refine hup.mono ?_ ?_
      · change (restore s.kernel (s.mutex m) t).priorities.1 = _
        rw [restore_priorities]
        rfl
      · intro n o u hn hu
        change (update s.mutex m _ n).owner = some o at hn
        change u ∈ Sys.waiters _ n at hu
        rw [hinv.waiters] at hu
        change u ∈ (restore s.kernel (s.mutex m) t).tlist (.suspendThread n) at hu
        have hw : (ListHead.suspendThread n).IsWait := trivial
        rw [restore_wait h.wf _ t hw, ← h.waiters] at hu
        refine ⟨?_, hu⟩
        by_cases hnm : n = m
        · subst hnm
          simp at hn
        · simpa [Sys.givenUp, Sys.graph, hnm] using hn
    · have hup := h.protected_givenUp hp hruns.1 (hok howner hhold).1
      exact h.protected_release_hands hup hinv hruns.1 (hok howner hhold).2
        (h.handed hruns.1 howner rfl hlist hk') rfl
  | expire t =>
    obtain ⟨k', hk', rfl⟩ := Option.map_eq_some_iff.mp hs'
    have hwk := h.wf.wakes_expire hk'
    refine h.protected_quiet hp hinv (fun _ => rfl) hwk.priorities fun {n u} hu => ?_
    rw [hwk.wait (.suspendThread n) trivial] at hu
    exact List.mem_of_mem_erase hu

/-- In every run whose calls meet `InheritOk`, a mutex that a thread is suspended on has an
owner that is at least as urgent as that thread. -/
theorem waiters_protected {s0 s : Sys} {es : List Event} (hinit : Unused s0)
    (hrun : run step s0 es = some s) (hok : Along step InheritOk s0 es) (m : Nat) (u : Tid)
    (hu : u ∈ s.waiters m) :
    ∃ o, (s.mutex m).owner = some o ∧
      (s.kernel.thread o).currentPriority ≤ (s.kernel.thread u).currentPriority := by
  have hp0 : s0.graph.Protected := by
    intro n o v _ hv
    change v ∈ s0.waiters n at hv
    simp [hinit.waiters n] at hv
  have hinv : Inv s ∧ s.graph.Protected := by
    refine run_invariant_along (I := fun s => Inv s ∧ s.graph.Protected) ?_
      ⟨hinit.inv, hp0⟩ hok hrun
    rintro s e s' ⟨hi, hp⟩ he hs'
    exact ⟨hi.step hs', step_protected hi hp he hs'⟩
  cases howner : (s.mutex m).owner with
  | none =>
    rw [hinv.1.waiters_of_free howner] at hu
    cases hu
  | some o => exact ⟨o, rfl, hinv.2 m o u howner hu⟩

/-- The owner of the mutex that is taken runs. -/
def OwnerRuns (s : Sys) : Event → Bool
  | .take m _ _ => (s.mutex m).owner.all fun o => (s.kernel.thread o).stat = .ready
  | _ => false

/-- An owner that runs waits for nothing, so a priority lent to it need not be passed on. -/
theorem inheritOk_of_ownerRuns {s : Sys} {e : Event} (h : Inv s) (hruns : OwnerRuns s e = true) : InheritOk s e := by
  cases e with
  | take m t time =>
    intro _ o howner _ n q hwait
    rw [OwnerRuns, howner] at hruns
    exact absurd hwait (h.not_waits (of_decide_eq_true hruns) n)
  | takeReturn | release | expire => cases hruns

/-! ## Three threads -/

/-- Threads 0, 1 and 2 with the priorities 20, 5 and 10, all ready, and free mutexes. -/
def threeThreads : Sys where
  kernel := Kernel.bootThreads (fun t => if t = 0 then 20 else if t = 1 then 5 else 10) [0, 1, 2]
  mutex := fun m => rtMutexInit m .prio
  inTake := fun _ => false
  held := fun _ _ => 0
  unboosted := fun _ => true

theorem threeThreads_unused : Unused threeThreads where
  wf := Kernel.bootThreads_wf _ _
  mutex := fun _ => ⟨.prio, rfl⟩
  waiters := fun _ => rfl

/-- Thread 0 takes mutex 0, and threads 2 and 1 wait for it. -/
def takes : List Event := [.take 0 0 (-1), .take 0 2 (-1), .take 0 1 (-1)]

/-- Thread 1 is the first one in the list of the waiters. -/
def queued : Sys := endState step threeThreads takes

theorem queued_eq : run step threeThreads takes = some queued := run_endState (by decide +kernel)

/-- Thread 0 has handed the mutex to thread 1. -/
def passed : Sys := endState step queued [.release 0 0]

theorem queued_ok : Along step InheritOk queued [.release 0 0] := by
  -- the release meets waiters of one mutex only
  refine ⟨fun _ _ => ⟨fun n hn howner => ?_, by decide +kernel⟩, fun _ _ => trivial⟩
  have hframe : queued.mutex n = threeThreads.mutex n :=
    run_frame (f := fun s => s.mutex n) (fun _ _ _ => step_frame) (by simp [takes, Event.mutex, Ne.symm hn])
      queued_eq
  rw [hframe] at howner
  cases howner

/-- After the hand-over thread 2 is protected by the new owner. -/
theorem waiters_protected_passed : 2 ∈ passed.waiters 0 ∧
    ∃ o, (passed.mutex 0).owner = some o ∧
      (passed.kernel.thread o).currentPriority ≤ (passed.kernel.thread 2).currentPriority := by
  have hmem : 2 ∈ passed.waiters 0 := by decide +kernel
  have hrun : run step queued [.release 0 0] = some passed := run_endState (by decide +kernel)
  have hok : Along step InheritOk threeThreads takes :=
    along_of_invariant (fun _ _ _ => Inv.step) (fun _ _ => inheritOk_of_ownerRuns) threeThreads_unused.inv
      (by decide +kernel)
  exact ⟨hmem, waiters_protected threeThreads_unused (run_append.mpr ⟨_, queued_eq, hrun⟩)
    (along_append hok queued_eq queued_ok) 0 2 hmem⟩

/-- Thread 0 owns two mutexes. Thread 1 waits for the first one and thread 2 for the second
one when thread 0 releases the first one. -/
def twoMutexes : List Event :=
  [.take 0 0 (-1), .take 1 0 (-1), .take 0 1 (-1), .take 1 2 (-1), .release 0 0]

/-- Thread 0 is back at the priority 20 and still owns the mutex that thread 2 waits for. -/
theorem waiter_unprotected_twoMutexes :
    Unused threeThreads ∧ ∃ s, run step threeThreads twoMutexes = some s ∧
      2 ∈ s.waiters 1 ∧ (s.mutex 1).owner = some 0 ∧
      (s.kernel.thread 0).currentPriority = 20 ∧ (s.kernel.thread 2).currentPriority = 10 :=
  ⟨threeThreads_unused, run_exists (by decide +kernel) fun _ _ => id⟩

end RtThread.Mutex
