-- SUMMARY: The mutex calls refine the abstract locks.
import ZigbeeGateway.Kernel.Mutex

/-!
# Runs of the mutex calls

`Sys.locks` reads the abstract locks off the kernel and the mutex objects. Every call is one
move of them (`step_move`), so the invariants of `Locks` hold in every run, under the
condition that each of them puts on the releases.
-/

namespace RtThread.Mutex

open Run Function
open Option (bind_eq_some_iff ite_none_right_eq_some map_eq_some_iff)

/-- The abstract locks of a state. -/
def Sys.locks (s : Sys) : Locks where
  owner := fun m => (s.mutex m).owner
  hold := fun m => (s.mutex m).hold
  saved := fun m => (s.mutex m).originalPriority
  held := s.held
  unboosted := s.unboosted
  prio := s.kernel.priorities.1
  base := s.kernel.priorities.2

/-- A mutex is free and nobody waits, or it has an owner and no unit. -/
def Ok (mutex : Mutex) (waiters : List Tid) : Prop :=
  match mutex.owner with
  | none => mutex.value = 1 ∧ mutex.hold = 0 ∧ waiters = []
  | some _ => mutex.value = 0 ∧ mutex.hold < 256 ∧ mutex.originalPriority < 32

structure Inv (s : Sys) : Prop where
  wf : s.kernel.WF
  obj : ∀ m, (s.mutex m).parent.obj = m
  ok : ∀ m, (s.mutex m).Ok (s.waiters m)

variable {s s' : Sys} {k k1 : Kernel} {e : Event}

theorem Unused.inv (h : Unused s) : Inv s := by
  constructor
  · exact h.wf
  · intro m
    obtain ⟨flag, hm⟩ := h.mutex m
    rw [hm]
    rfl
  · intro m
    obtain ⟨flag, hm⟩ := h.mutex m
    rw [h.waiters m, hm]
    exact ⟨rfl, rfl, rfl⟩

theorem suspendThread_isWait (mutex : Mutex) : mutex.parent.suspendThread.IsWait := trivial

theorem Inv.head (h : Inv s) (m : Nat) : (s.mutex m).parent.suspendThread = .suspendThread m := by
  rw [IpcObject.suspendThread, h.obj m]

theorem Inv.hold_lt (h : Inv s) {m : Nat} : (s.mutex m).hold < 256 := by
  have hok := h.ok m
  cases howner : (s.mutex m).owner <;> simp only [Mutex.Ok, howner] at hok <;> omega

theorem Ok.mono {mutex : Mutex} {l l' : List Tid} (h : mutex.Ok l) (hl : l = [] → l' = []) :
    mutex.Ok l' := by
  unfold Mutex.Ok at h ⊢
  cases howner : mutex.owner with
  | none =>
    rw [howner] at h
    exact ⟨h.1, h.2.1, hl h.2.2⟩
  | some t => rwa [howner] at h

/-- One mutex changes, and no wait list of another one gets a first thread. -/
theorem Inv.of_mutex {m : Nat} {mutex : Mutex} (h : Inv s) (hwf : s'.kernel.WF)
    (hmutex : s'.mutex = update s.mutex m mutex) (hparent : mutex.parent = (s.mutex m).parent)
    (hok : mutex.Ok (s'.kernel.tlist (.suspendThread m)))
    (hwait : ∀ n, n ≠ m → s.kernel.tlist (.suspendThread n) = [] →
      s'.kernel.tlist (.suspendThread n) = []) : Inv s' := by
  have hobj : ∀ n, (s'.mutex n).parent.obj = n := by
    intro n
    by_cases hnm : n = m
    · subst hnm
      rw [hmutex, update_self, hparent, h.obj n]
    · rw [hmutex, update_of_ne hnm, h.obj n]
  refine ⟨hwf, hobj, fun n => ?_⟩
  rw [Sys.waiters, IpcObject.suspendThread, hobj n]
  by_cases hnm : n = m
  · subst hnm
    rw [hmutex, update_self]
    exact hok
  · rw [hmutex, update_of_ne hnm]
    have hold := h.ok n
    rw [Sys.waiters, h.head n] at hold
    exact hold.mono (hwait n hnm)

theorem map_update {β : Type} (f : Mutex → β) (g : Nat → Mutex) (m : Nat) (mutex : Mutex) :
    (fun n => f (update g m mutex n)) = update (fun n => f (g n)) m (f mutex) :=
  comp_update f g m mutex

/-! ## rt_mutex_take -/

/-- The four ways through `rt_mutex_take`. -/
theorem rtMutexTake_cases {mutex : Mutex} {t : Tid} {time : Int}
    {r : Kernel × Mutex × Option Err} (hk1 : k1 = k.setError t .eok)
    (hr : rtMutexTake k mutex t time = some r) :
    (mutex.owner = some t ∧ r = (k1, { mutex with hold := (mutex.hold + 1) % 256 }, some .eok)) ∨
    (mutex.owner ≠ some t ∧ 0 < mutex.value ∧
      r = (k1, { mutex with
        value := mutex.value - 1
        owner := some t
        originalPriority := (k1.thread t).currentPriority
        hold := (mutex.hold + 1) % 256 }, some .eok)) ∨
    (r = (k1.setError t .etimeout, mutex, some .etimeout)) ∨
    (∃ owner k', owner ≠ t ∧ mutex.owner = some owner ∧ time ≠ 0 ∧
      ((inherit k1 owner t).rtIpcListSuspend mutex.parent.suspendThread t
        mutex.parent.flag).startThreadTimer t time = some k' ∧
      r = (k', mutex, none)) := by
  subst hk1
  unfold rtMutexTake at hr
  split at hr
  next howner => exact .inl ⟨howner, (Option.some.inj hr).symm⟩
  next howner =>
    split at hr
    next hpos => exact .inr (.inl ⟨howner, hpos, (Option.some.inj hr).symm⟩)
    next hpos =>
      split at hr
      · exact .inr (.inr (.inl (Option.some.inj hr).symm))
      next htime =>
        obtain ⟨owner, ho, hr⟩ := bind_eq_some_iff.mp hr
        obtain ⟨k', hk', hr⟩ := bind_eq_some_iff.mp hr
        refine .inr (.inr (.inr ⟨owner, k', ?_, ho, htime, hk', (Option.some.inj hr).symm⟩))
        rintro rfl
        exact howner ho

variable {P : Locks → Nat → Nat → Prop} {s : Sys} {m : Nat} {t : Tid}

/-- A step keeps the invariant and is a move of the abstract locks. -/
def Moves (P : Locks → Nat → Nat → Prop) (s s' : Sys) : Prop :=
  Inv s' ∧ Locks.Move P s.locks s'.locks

/-- A call that touches neither the mutexes nor the priorities. -/
theorem Inv.quiet (h : Inv s) (hwf : s'.kernel.WF) (hmutex : s'.mutex = s.mutex)
    (hheld : s'.held = s.held) (hunb : s'.unboosted = s.unboosted)
    (hprio : s'.kernel.priorities = s.kernel.priorities)
    (hwait : ∀ n, s.kernel.tlist (.suspendThread n) = [] →
      s'.kernel.tlist (.suspendThread n) = []) : Moves P s s' := by
  constructor
  · have hok := h.ok 0
    rw [Sys.waiters, h.head 0] at hok
    exact h.of_mutex (m := 0) hwf (by rw [hmutex, update_eq_self]) rfl
      (hok.mono (hwait 0)) fun n _ => hwait n
  · have hsame : s'.locks = s.locks := by
      rw [Sys.locks, hmutex, hheld, hunb, hprio]
      rfl
    rw [hsame]
    exact .idle

/-- The owner changes the counter. -/
theorem Inv.recount {hold : Nat} (h : Inv s) (howner : (s.mutex m).owner = some t) (hwf : s'.kernel.WF)
    (hmutex : s'.mutex = update s.mutex m { s.mutex m with hold := hold }) (hlt : hold < 256)
    (htlist : s'.kernel.tlist = s.kernel.tlist) : Inv s' := by
  have hok := h.ok m
  refine h.of_mutex hwf hmutex rfl ?_ fun n _ hn => htlist ▸ hn
  simp only [Mutex.Ok, howner] at hok ⊢
  exact ⟨hok.1, hlt, hok.2.2⟩

theorem Inv.take_again (h : Inv s) (howner : (s.mutex m).owner = some t)
    (hk1 : k1 = s.kernel.setError t .eok) :
    Moves P s (s.afterTake m t (k1, { s.mutex m with hold := ((s.mutex m).hold + 1) % 256 }, some .eok)) := by
  have hprio : k1.priorities = s.kernel.priorities := by
    rw [hk1, Kernel.setError_priorities]
  have htlist : k1.tlist = s.kernel.tlist := by rw [hk1, Kernel.setThread_tlist]
  refine ⟨h.recount howner (hk1 ▸ h.wf.setError t .eok) rfl (Nat.mod_lt _ (by decide)) htlist, ?_⟩
  have hlocks : (s.afterTake m t
      (k1, { s.mutex m with hold := ((s.mutex m).hold + 1) % 256 }, some .eok)).locks =
      s.locks.again m t := by
    simp only [Sys.locks, Sys.afterTake, Locks.again, Sys.unboostedAfter, Sys.newOwner, if_true,
      map_update, hprio]
    simp
  rw [hlocks]
  exact .again howner

/-- A unit is only there when the mutex has no owner. -/
theorem Inv.owner_of_value (h : Inv s) (hpos : 0 < (s.mutex m).value) :
    (s.mutex m).owner = none := by
  have hok := h.ok m
  cases ho : (s.mutex m).owner with
  | none => rfl
  | some u =>
    simp only [Mutex.Ok, ho] at hok
    omega

theorem Inv.take_free (h : Inv s) (hpos : 0 < (s.mutex m).value)
    (hk1 : k1 = s.kernel.setError t .eok) (mutex : Mutex) (hmutex : mutex = { s.mutex m with
        value := (s.mutex m).value - 1
        owner := some t
        originalPriority := (k1.thread t).currentPriority
        hold := ((s.mutex m).hold + 1) % 256 }) :
    Moves P s (s.afterTake m t (k1, mutex, some .eok)) := by
  have hok := h.ok m
  have hprio : k1.priorities = s.kernel.priorities := by
    rw [hk1, Kernel.setError_priorities]
  have hcur : (k1.thread t).currentPriority = s.kernel.priorities.1 t := by
    rw [← hprio]
    rfl
  have hwf : k1.WF := hk1 ▸ h.wf.setError t .eok
  have htlist : k1.tlist = s.kernel.tlist := by rw [hk1, Kernel.setThread_tlist]
  have hnone := h.owner_of_value hpos
  simp only [Mutex.Ok, hnone] at hok
  obtain ⟨hvalue, hhold, -⟩ := hok
  constructor
  · refine h.of_mutex hwf rfl (by rw [hmutex]) ?_ fun n _ hn => by
      simpa [Sys.afterTake, htlist] using hn
    simp only [Mutex.Ok, hmutex, hvalue, hhold]
    exact ⟨trivial, by omega, hwf.currentPriority t⟩
  · have hlocks : (s.afterTake m t (k1, mutex, some .eok)).locks = s.locks.grant m t := by
      simp only [Sys.locks, Sys.afterTake, Locks.grant, Sys.unboostedAfter, Sys.newOwner, if_true,
        map_update, hprio]
      simp only [hmutex, hnone, hhold, hcur, reduceCtorEq, if_false]
      rfl
    rw [hlocks]
    exact .enter t hnone

/-- The owner gets the more urgent one of the two priorities. -/
theorem inherit_priorities (k : Kernel) (owner t : Tid) :
    (inherit k owner t).priorities =
      (update k.priorities.1 owner (min (k.priorities.1 owner) (k.priorities.1 t)),
        k.priorities.2) := by
  unfold inherit
  split
  next hlt =>
    have hmin : min (k.priorities.1 owner) (k.priorities.1 t) = k.priorities.1 t :=
      min_eq_right hlt.le
    rw [Kernel.rtThreadChangePriority_priorities, hmin]
    rfl
  next hge =>
    have hmin : min (k.priorities.1 owner) (k.priorities.1 t) = k.priorities.1 owner :=
      min_eq_left (not_lt.mp hge)
    rw [hmin, update_eq_self]

theorem inherit_wf (h : k.WF) (owner t : Tid) : (inherit k owner t).WF := by
  unfold inherit
  split
  · exact h.rtThreadChangePriority owner (h.currentPriority t)
  · exact h

theorem inherit_wait (h : k.WF) (owner t : Tid) {hd : ListHead} (hw : hd.IsWait) :
    (inherit k owner t).tlist hd = k.tlist hd := by
  unfold inherit
  split
  · exact h.rtThreadChangePriority_wait owner _ hw
  · rfl

theorem inherit_thread (k : Kernel) {owner t : Tid} (hne : owner ≠ t) :
    (inherit k owner t).thread t = k.thread t := by
  unfold inherit
  split
  · rw [Kernel.rtThreadChangePriority_thread, update_of_ne (Ne.symm hne)]
  · rfl

/-- The kernel `k'` after thread `t` has begun to wait for the mutex of `owner`. -/
structure Blocked (s : Sys) (m : Nat) (t owner : Tid) (k' : Kernel) : Prop where
  wf : k'.WF
  mem : ∀ n u, u ∈ k'.tlist (.suspendThread n) ↔ u ∈ s.kernel.tlist (.suspendThread n) ∨ n = m ∧ u = t
  priorities : k'.priorities = (update s.kernel.priorities.1 owner
    (min (s.kernel.priorities.1 owner) (s.kernel.priorities.1 t)), s.kernel.priorities.2)

theorem Inv.blocked {time : Int} {owner : Tid} {k' : Kernel} (h : Inv s)
    (hstat : (s.kernel.thread t).stat = .ready) (hne : owner ≠ t)
    (hk1 : k1 = s.kernel.setError t .eok)
    (hk' : ((inherit k1 owner t).rtIpcListSuspend (s.mutex m).parent.suspendThread t
        (s.mutex m).parent.flag).startThreadTimer t time = some k') : Blocked s m t owner k' := by
  have hwf1 : k1.WF := hk1 ▸ h.wf.setError t .eok
  have hready : ((inherit k1 owner t).thread t).stat = .ready := by
    rw [inherit_thread k1 hne, hk1]
    simpa using hstat
  have hsus := (inherit_wf hwf1 owner t).block hready (suspendThread_isWait _) hk'
  refine ⟨hsus.wf, fun n u => ?_, ?_⟩
  · have hw : (ListHead.suspendThread n).IsWait := trivial
    have hold : (inherit k1 owner t).tlist (.suspendThread n) = s.kernel.tlist (.suspendThread n) := by
      rw [inherit_wait hwf1 owner t hw, hk1, Kernel.setThread_tlist]
    by_cases hnm : n = m
    · subst hnm
      rw [← h.head n, hsus.mem, h.head n, hold]
      simp [or_comm]
    · rw [hsus.other _ hw (by rw [h.head m]; simpa using hnm), hold]
      simp [hnm]
  · rw [hsus.priorities, inherit_priorities, hk1, Kernel.setError_priorities]

theorem Inv.take_blocks {owner : Tid} {k' : Kernel} (h : Inv s)
    (howner : (s.mutex m).owner = some owner) (hb : Blocked s m t owner k') :
    Moves P s (s.afterTake m t (k', s.mutex m, none)) := by
  constructor
  · refine h.of_mutex hb.wf rfl rfl ?_ fun n hn hnil => ?_
    · simpa only [Mutex.Ok, howner] using h.ok m
    · refine List.eq_nil_iff_forall_not_mem.mpr fun u hu => ?_
      simpa [hnil, hn] using (hb.mem n u).mp hu
  · have hlocks : (s.afterTake m t (k', s.mutex m, none)).locks = s.locks.boost owner
        (min (s.kernel.priorities.1 owner) (s.kernel.priorities.1 t)) := by
      simp only [Sys.locks, Sys.afterTake, update_eq_self, hb.priorities, Locks.boost]
    rw [hlocks]
    exact .boost _ howner

/-! ## rt_mutex_release -/

theorem restore_priorities (k : Kernel) (mutex : Mutex) (t : Tid) :
    (restore k mutex t).priorities =
      (update k.priorities.1 t mutex.originalPriority, k.priorities.2) := by
  unfold restore
  split
  · exact Kernel.rtThreadChangePriority_priorities ..
  next hsame =>
    have hcur : k.priorities.1 t = mutex.originalPriority := (not_not.mp hsame).symm
    rw [← hcur, update_eq_self]

theorem restore_wf {mutex : Mutex} (h : k.WF) (t : Tid)
    (hlt : mutex.originalPriority < 32) : (restore k mutex t).WF := by
  unfold restore
  split
  · exact h.rtThreadChangePriority t hlt
  · exact h

theorem restore_wait (h : k.WF) (mutex : Mutex) (t : Tid) {hd : ListHead}
    (hw : hd.IsWait) : (restore k mutex t).tlist hd = k.tlist hd := by
  unfold restore
  split
  · exact h.rtThreadChangePriority_wait t _ hw
  · rfl

/-- The four ways through `rt_mutex_release`. -/
theorem rtMutexRelease_cases {mutex : Mutex} {t : Tid}
    {r : Kernel × Mutex × Err} (hk1 : k1 = restore k mutex t) (hhold : mutex.hold < 256)
    (hr : rtMutexRelease k mutex t = some r) :
    (mutex.owner ≠ some t ∧
      r = (k.setError t .error, mutex, .error)) ∨
    (mutex.owner = some t ∧ mutex.hold ≠ 1 ∧
      r = (k, { mutex with hold := (mutex.hold + 255) % 256 }, .eok)) ∨
    (mutex.owner = some t ∧ mutex.hold = 1 ∧ k1.tlist mutex.parent.suspendThread = [] ∧
      r = (k1, { mutex with
        value := (mutex.value + 1) % 65536
        owner := none
        originalPriority := 0xff
        hold := 0 }, .eok)) ∨
    (∃ u rest k', mutex.owner = some t ∧ mutex.hold = 1 ∧
      k1.tlist mutex.parent.suspendThread = u :: rest ∧
      k1.rtIpcListResume mutex.parent.suspendThread = some k' ∧
      r = (k', { mutex with
        owner := some u
        originalPriority := (k1.thread u).currentPriority
        hold := 1 }, .eok)) := by
  subst hk1
  unfold rtMutexRelease at hr
  split at hr
  next howner => exact .inl ⟨howner, (Option.some.inj hr).symm⟩
  next howner =>
    have howner := not_not.mp howner
    dsimp only at hr
    split at hr
    next hzero =>
      have hone : mutex.hold = 1 := by omega
      -- the priority is restored before the counter is looked at again
      have hrestore : restore k { mutex with hold := (mutex.hold + 255) % 256 } t =
          restore k mutex t := rfl
      rw [hrestore] at hr
      split at hr
      next u rest hlist =>
        obtain ⟨k', hk', hr⟩ := bind_eq_some_iff.mp hr
        refine .inr (.inr (.inr ⟨u, rest, k', howner, hone, hlist, hk', ?_⟩))
        rw [← Option.some.inj hr, hzero]
      next hlist =>
        refine .inr (.inr (.inl ⟨howner, hone, hlist, ?_⟩))
        rw [← Option.some.inj hr, hzero]
    next hne => exact .inr (.inl ⟨howner, by omega, (Option.some.inj hr).symm⟩)

theorem Inv.release_other (h : Inv s) :
    Moves P s (s.afterRelease m t
      (s.kernel.setError t .error, s.mutex m, .error)) := by
  refine h.quiet (h.wf.setError t .error) ?_ ?_ ?_ (Kernel.setError_priorities ..) fun n hn => hn
  · simp [Sys.afterRelease]
  · simp [Sys.afterRelease, Sys.newOwner]
  · simp [Sys.afterRelease, Sys.unboostedAfter, Sys.newOwner]

theorem Inv.release_keeps (h : Inv s) (howner : (s.mutex m).owner = some t)
    (hhold : (s.mutex m).hold ≠ 1) :
    Moves P s (s.afterRelease m t
      (s.kernel, { s.mutex m with hold := ((s.mutex m).hold + 255) % 256 }, .eok)) := by
  refine ⟨h.recount howner h.wf rfl (Nat.mod_lt _ (by decide)) rfl, ?_⟩
  have hlocks : (s.afterRelease m t
      (s.kernel, { s.mutex m with hold := ((s.mutex m).hold + 255) % 256 }, .eok)).locks =
      s.locks.leave m t := by
    simp only [Sys.locks, Sys.afterRelease, Locks.leave, Sys.unboostedAfter, Sys.newOwner,
      if_true, map_update]
    simp
  rw [hlocks]
  exact .leave howner hhold

theorem Inv.release_frees (h : Inv s) (howner : (s.mutex m).owner = some t)
    (hhold : (s.mutex m).hold = 1) (hP : P s.locks m t) (hk1 : k1 = restore s.kernel (s.mutex m) t)
    (hnil : k1.tlist (s.mutex m).parent.suspendThread = []) (mutex : Mutex)
    (hmutex : mutex = { s.mutex m with
        value := ((s.mutex m).value + 1) % 65536
        owner := none
        originalPriority := 0xff
        hold := 0 }) :
    Moves P s (s.afterRelease m t (k1, mutex, .eok)) := by
  have hok := h.ok m
  simp only [Mutex.Ok, howner] at hok
  obtain ⟨hvalue, -, hlt⟩ := hok
  have hwf : k1.WF := hk1 ▸ restore_wf h.wf t hlt
  constructor
  · refine h.of_mutex hwf rfl (by rw [hmutex]) ?_ fun n _ hn => ?_
    · simp only [Mutex.Ok, hmutex, hvalue]
      exact ⟨trivial, trivial, by rwa [← h.head m]⟩
    · have hw : (ListHead.suspendThread n).IsWait := trivial
      simp only [Sys.afterRelease, hk1, restore_wait h.wf _ t hw, hn]
  · have hprio : k1.priorities = (update s.kernel.priorities.1 t
        (s.mutex m).originalPriority, s.kernel.priorities.2) := hk1 ▸ restore_priorities ..
    have hlocks : (s.afterRelease m t (k1, mutex, .eok)).locks = s.locks.free m t := by
      simp only [Sys.locks, Sys.afterRelease, Locks.free, Sys.unboostedAfter, Sys.newOwner,
        if_true, map_update, hprio, hmutex, howner, reduceCtorEq, if_false]
    rw [hlocks]
    exact .free howner hhold hP

/-- The kernel `k'` after thread `t` has handed a mutex over to its first waiter, where `k1` is the
one with the restored priority. -/
structure Handed (s : Sys) (m : Nat) (t u : Tid) (k1 k' : Kernel) : Prop where
  wf : k'.WF
  head : u ∈ (s.kernel.tlist (.suspendThread m)).head?
  ne : u ≠ t
  wait : ∀ n, k'.tlist (.suspendThread n) = (s.kernel.tlist (.suspendThread n)).erase u
  restored : k1.WF ∧ k1.priorities = k'.priorities
  priorities : k'.priorities =
    (update s.kernel.priorities.1 t (s.mutex m).originalPriority, s.kernel.priorities.2)

theorem Inv.handed {k' : Kernel} {u : Tid} {rest : List Tid} (h : Inv s)
    (hstat : (s.kernel.thread t).stat = .ready) (howner : (s.mutex m).owner = some t)
    (hk1 : k1 = restore s.kernel (s.mutex m) t)
    (hlist : k1.tlist (s.mutex m).parent.suspendThread = u :: rest)
    (hk' : k1.rtIpcListResume (s.mutex m).parent.suspendThread = some k') : Handed s m t u k1 k' := by
  have hok := h.ok m
  simp only [Mutex.Ok, howner] at hok
  have hwait : ∀ n, k1.tlist (.suspendThread n) = s.kernel.tlist (.suspendThread n) :=
    fun n => hk1 ▸ restore_wait h.wf _ t trivial
  have hwf1 : k1.WF := hk1 ▸ restore_wf h.wf t hok.2.2
  obtain ⟨k2, hk2, hwk⟩ := hwf1.rtIpcListResume (suspendThread_isWait _) hlist
  obtain rfl : k' = k2 := Option.some.inj (hk'.symm.trans hk2)
  rw [h.head m, hwait m] at hlist
  refine ⟨hwk.wf, by simp [hlist], ?_, fun n => ?_, ⟨hwf1, hwk.priorities.symm⟩, ?_⟩
  · -- the caller is ready, so it is not the thread at the head of the wait list
    rintro rfl
    have hw : (ListHead.suspendThread m).IsWait := trivial
    exact h.wf.notMem_wait hstat hw (by simp [hlist])
  · rw [hwk.wait (.suspendThread n) trivial, hwait n]
  · rw [hwk.priorities, hk1, restore_priorities]

theorem Inv.release_hands {k' : Kernel} {u : Tid} (h : Inv s) (howner : (s.mutex m).owner = some t)
    (hhold : (s.mutex m).hold = 1) (hP : P s.locks m t) (hh : Handed s m t u k1 k') (mutex : Mutex)
    (hmutex : mutex = { s.mutex m with
        owner := some u
        originalPriority := (k1.thread u).currentPriority
        hold := 1 }) :
    Moves P s (s.afterRelease m t (k', mutex, .eok)) := by
  have hok := h.ok m
  simp only [Mutex.Ok, howner] at hok
  constructor
  · refine h.of_mutex hh.wf rfl (by rw [hmutex]) ?_ fun n _ hn => ?_
    · simp only [Mutex.Ok, hmutex]
      exact ⟨hok.1, by omega, hh.restored.1.currentPriority u⟩
    · simp only [Sys.afterRelease, hh.wait n, hn, List.erase_nil]
  · have hcur : (k1.thread u).currentPriority = s.kernel.priorities.1 u := by
      have hu := congrFun (congrArg Prod.fst (hh.restored.2.trans hh.priorities)) u
      exact hu.trans (update_of_ne hh.ne ..)
    have hnew : some u ≠ some t := by simpa using hh.ne
    have hlocks : (s.afterRelease m t (k', mutex, .eok)).locks =
        (s.locks.free m t).grant m u := by
      simp only [Sys.locks, Sys.afterRelease, Locks.free, Locks.grant, Sys.unboostedAfter,
        Sys.newOwner, if_true, map_update, hh.priorities, hmutex, howner, hnew, if_false,
        update_idem, update_of_ne hh.ne, hcur]
      rfl
    rw [hlocks]
    exact .pass howner hhold hP hh.ne

/-! ## Steps and runs -/

/-- Every step is a move of the abstract locks. The condition `P` is asked for the releases
that give a mutex up. -/
theorem step_move (h : Inv s) (hs' : step s e = some s')
    (hP : ∀ m t, e = .release m t → (s.mutex m).owner = some t → (s.mutex m).hold = 1 →
      P s.locks m t) : Moves P s s' := by
  cases e with
  | take m t time =>
    obtain ⟨hruns, hs'⟩ := ite_none_right_eq_some.mp hs'
    obtain ⟨r, hr, rfl⟩ := map_eq_some_iff.mp hs'
    rcases rtMutexTake_cases rfl hr with ⟨howner, rfl⟩ | ⟨-, hpos, rfl⟩ | rfl |
      ⟨owner, k', hne, howner, -, hk', rfl⟩
    · exact h.take_again howner rfl
    · exact h.take_free hpos rfl _ rfl
    · refine h.quiet ((h.wf.setError t .eok).setError t .etimeout) ?_ ?_ ?_ ?_ fun n hn => hn
      · simp [Sys.afterTake]
      · simp [Sys.afterTake]
      · simp [Sys.afterTake, Sys.unboostedAfter, Sys.newOwner]
      · exact (Kernel.setError_priorities ..).trans (Kernel.setError_priorities ..)
    · exact h.take_blocks howner (h.blocked hruns.1 hne rfl hk')
  | takeReturn t =>
    obtain ⟨-, ⟨⟩⟩ := ite_none_right_eq_some.mp hs'
    exact h.quiet h.wf rfl rfl rfl rfl fun n hn => hn
  | release m t =>
    obtain ⟨hruns, hs'⟩ := ite_none_right_eq_some.mp hs'
    obtain ⟨r, hr, rfl⟩ := map_eq_some_iff.mp hs'
    rcases rtMutexRelease_cases rfl h.hold_lt hr with ⟨-, rfl⟩ | ⟨howner, hhold, rfl⟩ |
      ⟨howner, hhold, hnil, rfl⟩ | ⟨u, rest, k', howner, hhold, hlist, hk', rfl⟩
    · exact h.release_other
    · exact h.release_keeps howner hhold
    · exact h.release_frees howner hhold (hP m t rfl howner hhold) rfl hnil _ rfl
    · have hh := h.handed hruns.1 howner rfl hlist hk'
      exact h.release_hands howner hhold (hP m t rfl howner hhold) hh _ rfl
  | expire t =>
    obtain ⟨k', hk', rfl⟩ := map_eq_some_iff.mp hs'
    have hwk := h.wf.wakes_expire hk'
    refine h.quiet hwk.wf rfl rfl rfl hwk.priorities fun n hn => ?_
    have hw : (ListHead.suspendThread n).IsWait := trivial
    rw [hwk.wait _ hw, hn]
    rfl

/-- The mutex that a call is made on. -/
def Event.mutex : Event → Option Nat
  | .take m _ _ => some m
  | .release m _ => some m
  | .takeReturn _ | .expire _ => none

theorem step_frame {n : Nat} (hn : e.mutex ≠ some n)
    (hs' : step s e = some s') : s'.mutex n = s.mutex n := by
  cases e with
  | take m t time =>
    have hnm : n ≠ m := fun h => hn (by rw [h]; rfl)
    obtain ⟨-, hs'⟩ := ite_none_right_eq_some.mp hs'
    obtain ⟨⟨k, mutex, r⟩, -, rfl⟩ := map_eq_some_iff.mp hs'
    cases r <;> simp [Sys.afterTake, hnm]
  | takeReturn t =>
    obtain ⟨-, ⟨⟩⟩ := ite_none_right_eq_some.mp hs'
    rfl
  | release m t =>
    have hnm : n ≠ m := fun h => hn (by rw [h]; rfl)
    obtain ⟨-, hs'⟩ := ite_none_right_eq_some.mp hs'
    obtain ⟨r, -, rfl⟩ := map_eq_some_iff.mp hs'
    simp [Sys.afterRelease, hnm]
  | expire t =>
    obtain ⟨k', -, rfl⟩ := map_eq_some_iff.mp hs'
    rfl

/-- No owner releases a mutex at a depth that the counter of eight bits takes for one. -/
def DepthOk (s : Sys) : Event → Prop
  | .release m t => (s.mutex m).owner = some t → s.held m t % 256 = 1 → s.held m t = 1
  | _ => True

/-- No thread gives up its last mutex if it got that mutex at a lent priority. -/
def LastOk (s : Sys) : Event → Prop
  | .release m t => (s.mutex m).owner = some t → (s.mutex m).hold = 1 →
      (∀ n, n ≠ m → (s.mutex n).owner ≠ some t) → s.unboosted m = true
  | _ => True

theorem step_noWrap (h : Inv s) (hdepth : DepthOk s e)
    (hs' : step s e = some s') : Moves Locks.NoWrap s s' := by
  refine step_move h hs' ?_
  rintro m t rfl howner -
  exact hdepth howner

/-- A release by a thread that does not own the mutex reports the error and nothing else. -/
theorem step_release_other (hne : (s.mutex m).owner ≠ some t)
    (hs' : step s (.release m t) = some s') :
    s' = { s with kernel := s.kernel.setError t .error } := by
  obtain ⟨-, hs'⟩ := ite_none_right_eq_some.mp hs'
  rw [rtMutexRelease, if_pos hne] at hs'
  cases hs'
  simp [Sys.afterRelease, Sys.newOwner, Sys.unboostedAfter]

/-! ## Two threads -/

/-- Thread 0 with priority 20 and thread 1 with priority 5, both ready, and free mutexes. -/
def twoThreads : Sys where
  kernel := Kernel.bootThreads (fun t => if t = 0 then 20 else 5) [0, 1]
  mutex := fun m => rtMutexInit m .fifo
  inTake := fun _ => false
  held := fun _ _ => 0
  unboosted := fun _ => true

theorem twoThreads_initial : Initial twoThreads where
  wf := Kernel.bootThreads_wf _ _
  mutex := fun _ => ⟨.fifo, rfl⟩
  waiters := fun _ => rfl
  held := fun _ _ => rfl

theorem twoThreads_priority :
    ∀ t : Nat, (twoThreads.kernel.thread t).currentPriority = (twoThreads.kernel.thread t).initPriority
  | 0 | 1 => by decide
  | _ + 2 => rfl

/-- Thread 0 owns mutex 0 and thread 1 waits for it. -/
def contended : Sys := endState step twoThreads [.take 0 0 0, .take 0 1 (-1)]

theorem contended_eq : run step twoThreads [.take 0 0 0, .take 0 1 (-1)] = some contended :=
  run_endState (by decide)

/-- Thread 0 has released the mutex and thread 1 owns it. -/
def handedOver : Sys := endState step contended [.release 0 0]

theorem handedOver_eq : step contended (.release 0 0) = some handedOver :=
  step_endState (by decide)

/-! ## Exclusion and lent priorities -/

/-- In every run without a wrapped depth, a take is granted only when all granted takes of the
other threads are matched by their releases. -/
theorem exclusion {s0 s : Sys} {es : List Event} (hinit : Initial s0)
    (hrun : run step s0 es = some s) (hdepth : Along step DepthOk s0 es) :
    (∀ e s', DepthOk s e → step s e = some s' →
      ∀ m u, s.held m u < s'.held m u → ∀ t, t ≠ u → s'.held m t = 0) ∧
    ∀ m t s', (s.mutex m).owner ≠ some t → step s (.release m t) = some s' →
      s' = { s with
        kernel := s.kernel.setError t .error } := by
  have hheld0 : Locks.HeldOk s0.locks := by
    intro m
    obtain ⟨flag, hm⟩ := hinit.mutex m
    have howner : s0.locks.owner m = none := congrArg Mutex.owner hm
    rw [howner]
    exact hinit.held m
  have hinv : Inv s ∧ Locks.HeldOk s.locks := by
    refine run_invariant_along (I := fun s => Inv s ∧ Locks.HeldOk s.locks) ?_
      ⟨hinit.inv, hheld0⟩ hdepth hrun
    rintro s e s' ⟨hi, hh⟩ hd hs'
    obtain ⟨hi', hmove⟩ := step_noWrap hi hd hs'
    exact ⟨hi', hh.move hmove⟩
  refine ⟨fun e s' hd hs' m u hin t htu => ?_, fun m t s' hne hs' => step_release_other hne hs'⟩
  exact hinv.2.exclusive (step_noWrap hinv.1 hd hs').2 hin t htu

/-- Thread 1 gets the mutex when thread 0 is out. -/
theorem exclusion_handedOver :
    contended.held 0 1 < handedOver.held 0 1 ∧ handedOver.held 0 0 = 0 := by
  have hin : contended.held 0 1 < handedOver.held 0 1 := by decide
  have hone : DepthOk contended (.release 0 0) := fun _ _ => by decide
  have hdepth : Along step DepthOk twoThreads [.take 0 0 0, .take 0 1 (-1)] :=
    ⟨trivial, fun _ _ => ⟨trivial, fun _ _ => trivial⟩⟩
  exact ⟨hin, (exclusion twoThreads_initial contended_eq hdepth).1 _ _ hone handedOver_eq 0 1 hin 0
    (by decide)⟩

/-- Nobody waits for a mutex without an owner, also where the depth counter has wrapped. -/
theorem free_no_waiter {s0 s : Sys} {es : List Event} (hinit : Unused s0) (hrun : run step s0 es = some s)
    {m : Nat} (hfree : (s.mutex m).owner = none) :
    (s.mutex m).value = 1 ∧ (s.mutex m).hold = 0 ∧ s.waiters m = [] := by
  have hinv : Inv s := run_invariant (fun s e s' hi hs =>
    (step_move (P := fun _ _ _ => True) hi hs fun _ _ _ _ _ => trivial).1) hinit.inv hrun
  have hok := hinv.ok m
  rwa [Ok, hfree] at hok

/-- Thread 1 has waited for mutex 0 and got it from thread 0, and has released it, too. -/
theorem free_no_waiter_released :
    contended.waiters 0 = [1] ∧
      ∃ s, run step twoThreads [.take 0 0 0, .take 0 1 (-1), .release 0 0, .takeReturn 1, .release 0 1] = some s ∧
        (s.mutex 0).value = 1 ∧ (s.mutex 0).hold = 0 ∧ s.waiters 0 = [] :=
  ⟨by decide +kernel, run_exists (Q := fun s => (s.mutex 0).owner = none) (by decide +kernel)
    fun _ hrun hfree => free_no_waiter twoThreads_initial.toUnused hrun hfree⟩

/-- In every run in which the last mutex of a thread was not got at a lent priority, a thread
that owns no mutex has its initial priority. -/
theorem priority_returned {s0 s : Sys} {es : List Event} (hinit : Unused s0)
    (hpriority : ∀ t, (s0.kernel.thread t).currentPriority = (s0.kernel.thread t).initPriority)
    (hrun : run step s0 es = some s) (hlast : Along step LastOk s0 es) (t : Tid)
    (hout : ∀ m, (s.mutex m).owner ≠ some t) :
    (s.kernel.thread t).currentPriority = (s.kernel.thread t).initPriority := by
  have hlent0 : Locks.LentOk s0.locks := by
    refine ⟨fun u _ => hpriority u, fun m u hown => ?_⟩
    obtain ⟨flag, hm⟩ := hinit.mutex m
    cases (congrArg Mutex.owner hm).symm.trans hown
  have hinv : Inv s ∧ Locks.LentOk s.locks := by
    refine run_invariant_along (I := fun s => Inv s ∧ Locks.LentOk s.locks) ?_
      ⟨hinit.inv, hlent0⟩ hlast hrun
    rintro s e s' ⟨hi, hl⟩ hd hs'
    obtain ⟨hi', hmove⟩ : Moves Locks.LastUnboosted s s' := by
      refine step_move hi hs' ?_
      rintro m t rfl howner hhold
      exact hd howner hhold
    exact ⟨hi', hl.move hmove⟩
  exact hinv.2.out t hout

/-- Thread 0 got its mutex at its own priority and has it back after the release. -/
theorem priority_returned_handedOver :
    (contended.kernel.thread 0).currentPriority = 5 ∧
      (handedOver.kernel.thread 0).currentPriority = (handedOver.kernel.thread 0).initPriority := by
  have hrun : run step contended [.release 0 0] = some handedOver := run_cons.mpr ⟨_, handedOver_eq, rfl⟩
  have htakes : Along step LastOk twoThreads [.take 0 0 0, .take 0 1 (-1)] :=
    ⟨trivial, fun _ _ => ⟨trivial, fun _ _ => trivial⟩⟩
  have hrelease : Along step LastOk contended [.release 0 0] := ⟨fun _ _ _ => by decide, fun _ _ => trivial⟩
  refine ⟨by decide, priority_returned twoThreads_initial.toUnused twoThreads_priority
    (run_append.mpr ⟨_, contended_eq, hrun⟩) (along_append htakes contended_eq hrelease) 0 fun m => ?_⟩
  match m with
  | 0 => decide
  | m + 1 => exact nofun

/-- Thread 0 borrows the priority 5 of thread 1, takes a second mutex at that priority, and
releases the second mutex last. -/
def borrowedTwice : List Event :=
  [.take 0 0 (-1), .take 0 1 (-1), .take 1 0 (-1), .release 0 0, .release 1 0]

/-- Thread 0 then owns nothing and still has the priority of thread 1. -/
theorem priority_kept_borrowedTwice :
    Unused twoThreads ∧
    (∀ t, (twoThreads.kernel.thread t).currentPriority = (twoThreads.kernel.thread t).initPriority) ∧
    ∃ s, run step twoThreads borrowedTwice = some s ∧
      (∀ m, (s.mutex m).owner ≠ some 0) ∧
      (s.kernel.thread 0).currentPriority = 5 ∧ (s.kernel.thread 0).initPriority = 20 := by
  refine ⟨twoThreads_initial.toUnused, twoThreads_priority,
    run_exists (Q := fun s => (s.mutex 0).owner = some 1 ∧ (s.mutex 1).owner = none ∧
      (s.kernel.thread 0).currentPriority = 5 ∧ (s.kernel.thread 0).initPriority = 20) (by decide +kernel) ?_⟩
  rintro s hrun ⟨hfirst, hsecond, hprio⟩
  refine ⟨fun m => ?_, hprio⟩
  match m with
  | 0 => simp [hfirst]
  | 1 => simp [hsecond]
  | m + 2 =>
    rw [run_frame (fun _ _ _ => step_frame) (by simp [borrowedTwice, Event.mutex]) hrun]
    exact nofun

/-- At depth 257 the counter is one again, so a single release frees the mutex, and thread 1 gets
it while 256 takes of thread 0 are not matched. -/
theorem exclusion_fails_depth257 :
    Initial twoThreads ∧ ∃ s s',
      run step twoThreads (List.replicate 257 (.take 0 0 0) ++ [.release 0 0]) = some s ∧
      step s (.take 0 1 0) = some s' ∧ s.held 0 1 < s'.held 0 1 ∧ s'.held 0 0 = 256 := by
  obtain ⟨s, hrun, s', hs', hin, hheld⟩ :
      ∃ s ∈ run step twoThreads (List.replicate 257 (.take 0 0 0) ++ [.release 0 0]),
        ∃ s' ∈ step s (.take 0 1 0), s.held 0 1 < s'.held 0 1 ∧ s'.held 0 0 = 256 := by
    decide +kernel
  exact ⟨twoThreads_initial, s, s', hrun, hs', hin, hheld⟩

end RtThread.Mutex
